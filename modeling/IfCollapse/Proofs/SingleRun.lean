import IfCollapse.Proofs.Applicability
import Mathlib.Algebra.Ring.Nat

/-! How often a replacement evaluates the condition. An `if` does it once whenever it runs; a
conditional expression does it as often as the place where it stands is reached. -/

namespace IfCollapse.Branch

open Java

def roundParts : String → List String
  | "while_statement" => ["condition", "body"]
  | "do_statement" => ["body", "condition"]
  | "for_statement" => ["condition", "update", "body"]
  | "enhanced_for_statement" => ["body"]
  | _ => []

def optionalParts : String → List String
  | "if_statement" => ["consequence", "alternative"]
  | "ternary_expression" => ["consequence", "alternative"]
  | "while_statement" => ["body"]
  | "for_statement" => ["update", "body"]
  | "enhanced_for_statement" => ["body"]
  | _ => []

def hasRole (part : Shape) (fields : List String) : Bool :=
  fields.any fun field => part.field == some field

def repeats (parent part : Shape) : Bool :=
  hasRole part (roundParts parent.name)

def skips (parent part : Shape) : Bool :=
  hasRole part (optionalParts parent.name) ||
    (parent.kind == .binaryExpression && isShortCircuit parent && hasRole part ["right"]) ||
    ["switch_block_statement_group", "switch_rule", "catch_clause"].contains part.name

/-- How many times a part may run while its parent runs once. -/
def Permits (parent part : Shape) (times : Nat) : Prop :=
  times = 1 ∨ (times = 0 ∧ skips parent part = true) ∨ (1 < times ∧ repeats parent part = true)

mutual

/-- Some run of the element evaluates the condition `n` times: once for each time that a target is
reached. -/
def Counts (targets : List Nat) : Shape → Nat → Prop
  | .token label _, n => n = if label.id ∈ targets then 1 else 0
  | .node label children, n =>
    if label.id ∈ targets then n = 1
    else CountsAll targets (.node label children) children n

def CountsAll (targets : List Nat) (parent : Shape) : List Shape → Nat → Prop
  | [], n => n = 0
  | s :: shapes, n => ∃ (counts : List Nat) (rest : Nat), Permits parent s counts.length ∧
      (∀ k ∈ counts, Counts targets s k) ∧ CountsAll targets parent shapes rest ∧
      n = counts.sum + rest

end

section Counting

variable {targets : List Nat} {parent : Shape} {shapes : List Shape} {p : Place} {n : Nat}

theorem counts_of_target (h : p.id ∈ targets) : Counts targets p.here n ↔ n = 1 := by
  obtain ⟨s, above⟩ := p
  cases s with
  | token label named =>
    change label.id ∈ targets at h
    simp [Counts, h]
  | node label parts =>
    change label.id ∈ targets at h
    simp [Counts, h]

theorem counts_of_not_target (h : p.id ∉ targets) :
    Counts targets p.here n ↔ CountsAll targets p.here p.here.children n := by
  obtain ⟨s, above⟩ := p
  cases s with
  | token label named =>
    change label.id ∉ targets at h
    simp [Counts, CountsAll, Shape.children, h]
  | node label parts =>
    change label.id ∉ targets at h
    simp [Counts, Shape.children, h]

theorem countsAll_cons_once {s : Shape} {k rest : Nat} (hk : Counts targets s k)
    (hrest : CountsAll targets parent shapes rest) :
    CountsAll targets parent (s :: shapes) (k + rest) := by
  refine ⟨[k], rest, Or.inl rfl, ?_, hrest, by simp⟩
  intro k' hk'
  rw [List.mem_singleton.1 hk']
  exact hk

theorem exists_countsAll (parent : Shape) (h : ∀ s ∈ shapes, ∃ n, Counts targets s n) :
    ∃ n, CountsAll targets parent shapes n := by
  induction shapes with
  | nil => exact ⟨0, rfl⟩
  | cons s shapes ih =>
    obtain ⟨k, hk⟩ := h s List.mem_cons_self
    obtain ⟨rest, hrest⟩ := ih fun t ht => h t (List.mem_cons_of_mem s ht)
    exact ⟨k + rest, countsAll_cons_once hk hrest⟩

theorem exists_counts (targets : List Nat) (s : Shape) : ∃ n, Counts targets s n := by
  induction s with
  | token label named => exact ⟨_, rfl⟩
  | node label children ih =>
    by_cases hid : label.id ∈ targets
    · exact ⟨1, by simp [Counts, hid]⟩
    · obtain ⟨n, hn⟩ := exists_countsAll (.node label children) ih
      exact ⟨n, by simpa [Counts, hid] using hn⟩

theorem countsAll_eq_zero (h : ∀ s ∈ shapes, ∀ k, Counts targets s k → k = 0)
    (hn : CountsAll targets parent shapes n) : n = 0 := by
  induction shapes generalizing n with
  | nil => exact hn
  | cons s shapes ih =>
    obtain ⟨counts, rest, _, hcounts, hrest, rfl⟩ := hn
    have hsum : counts.sum = 0 := List.sum_eq_zero_iff_forall_eq_nat.2 fun k hk =>
      h s List.mem_cons_self k (hcounts k hk)
    rw [hsum, ih (fun t ht => h t (List.mem_cons_of_mem s ht)) hrest]

theorem eq_zero_of_counts (h : ∀ q ∈ p.below, q.id ∉ targets)
    (hn : Counts targets p.here n) : n = 0 := by
  induction p using Place.induct generalizing n with
  | step p ih =>
    rw [counts_of_not_target (h p p.mem_below_self)] at hn
    refine countsAll_eq_zero ?_ hn
    intro s hs k hk
    have hc : (⟨s, p.here :: p.above⟩ : Place) ∈ p.children := List.mem_map_of_mem hs
    exact ih _ hc (fun q hq => h q (Place.mem_below_of_child hc hq)) hk

theorem countsAll_iff {s : Shape} {i : Nat} (hs : shapes[i]? = some s)
    (hothers : ∀ (j : Nat) (t : Shape), j ≠ i → shapes[j]? = some t →
      ∀ k, Counts targets t k → k = 0) :
    CountsAll targets parent shapes n ↔ ∃ counts : List Nat, Permits parent s counts.length ∧
      (∀ k ∈ counts, Counts targets s k) ∧ n = counts.sum := by
  induction shapes generalizing i n with
  | nil => simp at hs
  | cons t shapes ih =>
    cases i with
    | zero =>
      simp only [List.getElem?_cons_zero, Option.some.injEq] at hs
      subst hs
      have hrest : ∀ u ∈ shapes, ∀ k, Counts targets u k → k = 0 := by
        intro u hu
        obtain ⟨j, hj⟩ := List.mem_iff_getElem?.1 hu
        exact hothers (j + 1) u (by omega) hj
      constructor
      · rintro ⟨counts, rest, hpermits, hcounts, hr, rfl⟩
        exact ⟨counts, hpermits, hcounts, by rw [countsAll_eq_zero hrest hr]; rfl⟩
      · rintro ⟨counts, hpermits, hcounts, rfl⟩
        obtain ⟨rest, hr⟩ := exists_countsAll parent fun u (_ : u ∈ shapes) =>
          exists_counts targets u
        exact ⟨counts, rest, hpermits, hcounts, hr, by rw [countsAll_eq_zero hrest hr]; rfl⟩
    | succ i =>
      have hhead : ∀ k, Counts targets t k → k = 0 := hothers 0 t (by omega) rfl
      have htail := ih (n := n) hs fun j u hj hu => hothers (j + 1) u (by omega) hu
      rw [← htail]
      constructor
      · rintro ⟨counts, rest, _, hcounts, hr, rfl⟩
        have hsum : counts.sum = 0 :=
          List.sum_eq_zero_iff_forall_eq_nat.2 fun k hk => hhead k (hcounts k hk)
        rw [hsum, Nat.zero_add]
        exact hr
      · intro hr
        obtain ⟨k, hk⟩ := exists_counts targets t
        have hcons := countsAll_cons_once hk hr
        rw [hhead k hk, Nat.zero_add] at hcons
        exact hcons

end Counting

section Path

variable {p c t : Place} {n : Nat}

theorem counts_iff_child (hdist : p.Distinct) (hc : c ∈ p.children) (ht : t ∈ c.below) :
    Counts [t.id] p.here n ↔ ∃ counts : List Nat, Permits p.here c.here counts.length ∧
      (∀ k ∈ counts, Counts [t.id] c.here k) ∧ n = counts.sum := by
  have htp := Place.mem_below_of_child hc ht
  have hp : p.id ∉ [t.id] := by
    intro hid
    have hpt : p = t := hdist.eq p.mem_below_self htp (List.mem_singleton.1 hid)
    exact Place.not_mem_below_child hc (hpt ▸ ht)
  obtain ⟨i, hi⟩ := List.mem_iff_getElem?.1 hc
  rw [counts_of_not_target hp]
  refine countsAll_iff (Place.getElem?_children hi) ?_
  intro j s hj hs k hk
  have hd : p.children[j]? = some ⟨s, p.here :: p.above⟩ := by
    rw [Place.children, List.getElem?_map, hs]
    rfl
  refine eq_zero_of_counts (p := ⟨s, p.here :: p.above⟩) ?_ hk
  intro q hq hid
  have hqp := Place.below_trans (Place.child_mem_below (List.mem_of_getElem? hd)) hq
  have hqt : q = t := hdist.eq hqp htp (List.mem_singleton.1 hid)
  exact hj (hdist.child_eq hd hi hq (hqt ▸ ht))

/-- A part that runs exactly once whenever its parent runs. -/
def Straight (parent part : Shape) : Prop :=
  repeats parent part = false ∧ skips parent part = false

theorem permits_of_straight {parent part : Shape} {times : Nat} (h : Straight parent part)
    (hp : Permits parent part times) : times = 1 := by
  simpa [Permits, h.1, h.2] using hp

theorem eq_one_of_straight (hdist : p.Distinct) (ht : t ∈ p.below)
    (hpath : ∀ x ∈ p.below, ∀ y ∈ x.children, t ∈ y.below → Straight x.here y.here)
    (hn : Counts [t.id] p.here n) : n = 1 := by
  induction p using Place.induct generalizing n with
  | step p ih =>
    rcases Place.mem_below_iff.1 ht with rfl | ⟨c, hc, htc⟩
    · exact (counts_of_target (List.mem_singleton_self _)).1 hn
    · obtain ⟨counts, hpermits, hcounts, rfl⟩ := (counts_iff_child hdist hc htc).1 hn
      have hone := permits_of_straight (hpath p p.mem_below_self c hc htc) hpermits
      obtain ⟨k, rfl⟩ := List.length_eq_one_iff.1 hone
      rw [List.sum_singleton]
      refine ih c hc (hdist.child hc) htc ?_ (hcounts k List.mem_cons_self)
      intro x hx
      exact hpath x (Place.mem_below_of_child hc hx)

/-- If the child towards the target is not straight, some run leaves it out or takes it twice. -/
theorem straight_of_eq_one (hdist : p.Distinct) (hc : c ∈ p.children) (ht : t ∈ c.below)
    (h : ∀ n, Counts [t.id] p.here n → n = 1) : Straight p.here c.here := by
  constructor
  · by_contra hrepeats
    rw [Bool.not_eq_false] at hrepeats
    obtain ⟨k, hk⟩ := exists_counts [t.id] c.here
    have htwice : Counts [t.id] p.here (k + k) := by
      refine (counts_iff_child hdist hc ht).2 ⟨[k, k], Or.inr (Or.inr ⟨by simp, hrepeats⟩), ?_, ?_⟩
      · simp [hk]
      · simp
    have hodd := h (k + k) htwice
    omega
  · by_contra hskips
    rw [Bool.not_eq_false] at hskips
    have hnone : Counts [t.id] p.here 0 :=
      (counts_iff_child hdist hc ht).2 ⟨[], Or.inr (Or.inl ⟨rfl, hskips⟩), by simp, rfl⟩
    have hzero := h 0 hnone
    omega

theorem straight_path_of_eq_one (hdist : p.Distinct) (ht : t ∈ p.below)
    (h : ∀ n, Counts [t.id] p.here n → n = 1) :
    ∀ x ∈ p.below, ∀ y ∈ x.children, t ∈ y.below → Straight x.here y.here := by
  induction p using Place.induct with
  | step p ih =>
    intro x hx y hy hty
    rcases Place.mem_below_iff.1 hx with rfl | ⟨d, hd, hxd⟩
    · exact straight_of_eq_one hdist hy hty h
    · -- the target is below `d`, so the runs of `d` are among those of `p`
      have htd : t ∈ d.below := Place.below_trans hxd (Place.mem_below_of_child hy hty)
      refine ih d hd (hdist.child hd) htd ?_ x hxd y hy hty
      intro n hn
      apply h
      refine (counts_iff_child hdist hd htd).2 ⟨[n], Or.inl rfl, ?_, by simp⟩
      simpa using hn

end Path

def Statement.Evaluates (s : Statement) (n : Nat) : Prop :=
  Counts s.targets s.template.here n

end IfCollapse.Branch

namespace IfCollapse.Lint

open Java Branch

/-- Let the condition of an `if` be one that must not be repeated, and its replacement safe. Then
there is one conditional expression, on a straight way down from the statement, exactly if every run
of the statement evaluates the condition once. -/
theorem safe_evaluates_once_iff {source : Source} {cst : Cst} {tree : Tree} {id : Nat}
    {place condition : Place} {r : Replacement} {comments : List Span} {span : Span}
    (htree : Tree.ofCst source cst = .ok tree) (hget : tree.get? id = some place)
    (hcondition : place.childByField? "condition" = some condition)
    (heffect : isRepeatable (innerCondition condition).here = false)
    (h : evaluate tree id = .ok (.replace r)) (hsafe : applicability comments span r = .safe) :
    ∃ s, r.statements = [s] ∧ (∃ n, s.Evaluates n) ∧
      ((∃ c, s.substitutions = [c] ∧ ∀ x ∈ s.template.below, ∀ y ∈ x.children,
          c.target ∈ y.below → Straight x.here y.here) ↔
        ∀ n, s.Evaluates n → n = 1) := by
  obtain ⟨root, hl⟩ := lowered_of_ofCst htree
  obtain ⟨found, condition', sites, borrowed, hr⟩ := replaced_of_evaluate h
  have hfound : place = found := Option.some.inj (hget.symm.trans hr.get)
  subst hfound
  have hsame : condition = condition' := Option.some.inj (hcondition.symm.trans hr.hasCondition)
  subst hsame
  obtain ⟨s, hs⟩ := single_of_safe hr hsafe
  obtain ⟨htemplate, hsubs⟩ := hr.mem_below hl (s := s) (by simp [hs])
  have hdist := hl.distinct.of_mem_below htemplate
  have hfew := count_le_one_of_safe hr hsafe heffect
  have hlength : s.substitutions.length ≤ 1 := by
    simpa [Replacement.count, hs] using hfew
  refine ⟨s, hs, exists_counts _ _, ?_⟩
  constructor
  · rintro ⟨c, hc, hpath⟩ n hn
    have hmem := (hsubs c (by simp [hc])).2.1
    rw [Statement.Evaluates, Statement.targets, hc] at hn
    exact eq_one_of_straight hdist hmem hpath hn
  · intro hone
    cases hlist : s.substitutions with
    | nil =>
      -- without a target no run evaluates the condition
      obtain ⟨n, hn⟩ := exists_counts s.targets s.template.here
      have hzero : n = 0 := eq_zero_of_counts (by simp [Statement.targets, hlist]) hn
      have hn1 := hone n hn
      omega
    | cons c rest =>
      have hrest : rest = [] := by
        rw [hlist, List.length_cons] at hlength
        exact List.length_eq_zero_iff.1 (by omega)
      subst hrest
      have hmem := (hsubs c (by simp [hlist])).2.1
      refine ⟨c, rfl, straight_path_of_eq_one hdist hmem ?_⟩
      intro n hn
      apply hone
      rw [Statement.Evaluates, Statement.targets, hlist]
      exact hn

/-- The tree of `g(1);`, whatever the number is. -/
def callStatement (start : Nat) (field : String) : Cst :=
  .part "expression_statement" start 5 (some field) [
    .part "method_invocation" start 4 none [
      .part "identifier" start 1 (some "name") [],
      .part "argument_list" (start + 1) 3 (some "arguments") [
        .mark "(" (start + 1), .part "decimal_integer_literal" (start + 2) 1 none [],
        .mark ")" (start + 3)]],
    .mark ";" (start + 4)]

/-- The tree of `while (c) g(1);`. -/
def loopStatement (start : Nat) (field : String) : Cst :=
  .part "while_statement" start 15 (some field) [
    .mark "while" start,
    .part "parenthesized_expression" (start + 6) 3 (some "condition") [
      .mark "(" (start + 6), .part "identifier" (start + 7) 1 none [], .mark ")" (start + 8)],
    callStatement (start + 10) "body"]

/-- The tree of an `if (f())` with two statements of the given length. -/
def ifCall (length : Nat) (statement : Nat → String → Cst) : Cst :=
  .part "if_statement" 0 (length + length + 15) none [
    .mark "if" 0,
    .part "parenthesized_expression" 3 5 (some "condition") [
      .mark "(" 3,
      .part "method_invocation" 4 3 none [
        .part "identifier" 4 1 (some "name") [],
        .part "argument_list" 5 2 (some "arguments") [.mark "(" 5, .mark ")" 6]],
      .mark ")" 7],
    statement 9 "consequence", .mark "else" (length + 10), statement (length + 15) "alternative"]

def ifCallText : Source := .ofText "if (f()) g(1); else g(2);".toList

def ifLoopText : Source := .ofText "if (f()) while (c) g(1); else while (c) g(2);".toList

def topHasEffect (tree : Tree) : Bool :=
  (tree.get? 0).any fun place => (place.childByField? "condition").any fun condition =>
    !isRepeatable (innerCondition condition).here

theorem topHasEffect_iff {tree : Tree} : topHasEffect tree = true ↔
    ∃ place condition, tree.get? 0 = some place ∧
      place.childByField? "condition" = some condition ∧
      isRepeatable (innerCondition condition).here = false := by
  simp [topHasEffect, Option.any_eq_true]

theorem call_evaluates_once : ∃ tree place condition r span s,
    Tree.ofCst ifCallText (ifCall 5 callStatement) = .ok tree ∧ tree.get? 0 = some place ∧
    place.childByField? "condition" = some condition ∧
    isRepeatable (innerCondition condition).here = false ∧
    evaluate tree 0 = .ok (.replace r) ∧ applicability tree.comments span r = .safe ∧
    r.statements = [s] ∧ ∀ n, s.Evaluates n → n = 1 := by
  have hcheck : (replacementAt? ifCallText (ifCall 5 callStatement) 0).any (fun found =>
      isSafe found.1 found.2 && topHasEffect found.1 &&
        found.2.statements.all fun s => s.substitutions.length == 1 &&
          s.substitutions.all fun c => s.template.below.all fun x => x.children.all fun y =>
            !c.target.isWithin y.id || !(repeats x.here y.here || skips x.here y.here)) = true := by
    decide +kernel
  obtain ⟨tree, r, htree, heval, hfound⟩ := exists_of_replacementAt? hcheck
  simp only [Bool.and_eq_true] at hfound
  obtain ⟨⟨hsafe, htop⟩, hstatements⟩ := hfound
  obtain ⟨span, _, hsafe⟩ := isSafe_iff.1 hsafe
  obtain ⟨place, condition, hget, hcondition, heffect⟩ := topHasEffect_iff.1 htop
  obtain ⟨s, hs, _, hiff⟩ :=
    safe_evaluates_once_iff htree hget hcondition heffect heval hsafe
  refine ⟨tree, place, condition, r, span, s, htree, hget, hcondition, heffect, heval, hsafe, hs,
    hiff.1 ?_⟩
  simp only [hs, List.all_cons, List.all_nil, Bool.and_true, Bool.and_eq_true,
    beq_iff_eq] at hstatements
  obtain ⟨c, hc⟩ := List.length_eq_one_iff.1 hstatements.1
  refine ⟨c, hc, ?_⟩
  intro x hx y hy hin
  have hlinks := List.all_eq_true.1 hstatements.2 c (by simp [hc])
  have hlink := List.all_eq_true.1 (List.all_eq_true.1 hlinks x hx) y hy
  rw [Place.isWithin_of_mem_below hin] at hlink
  simpa [Straight] using hlink

/-- A safe replacement in a loop evaluates `f()` in every round. -/
theorem loop_repeats_condition : ∃ tree place condition r span s c,
    Tree.ofCst ifLoopText (ifCall 15 loopStatement) = .ok tree ∧ tree.get? 0 = some place ∧
    place.childByField? "condition" = some condition ∧
    isRepeatable (innerCondition condition).here = false ∧
    evaluate tree 0 = .ok (.replace r) ∧ r.span = .ok span ∧
    applicability tree.comments span r = .safe ∧ r.statements = [s] ∧ c ∈ s.substitutions ∧
    ∃ x ∈ s.template.below, ∃ y ∈ x.children, c.target ∈ y.below ∧
      repeats x.here y.here = true := by
  have hcheck : (replacementAt? ifLoopText (ifCall 15 loopStatement) 0).any (fun found =>
      isSafe found.1 found.2 && topHasEffect found.1 &&
        found.2.statements.all fun s => s.substitutions.any fun c =>
          s.template.below.any fun x => x.children.any fun y =>
            c.target.isWithin y.id && repeats x.here y.here) = true := by
    decide +kernel
  obtain ⟨tree, r, htree, heval, hfound⟩ := exists_of_replacementAt? hcheck
  simp only [Bool.and_eq_true] at hfound
  obtain ⟨⟨hsafe, htop⟩, hstatements⟩ := hfound
  obtain ⟨span, hspan, hsafe⟩ := isSafe_iff.1 hsafe
  obtain ⟨place, condition, hget, hcondition, heffect⟩ := topHasEffect_iff.1 htop
  obtain ⟨root, hl⟩ := lowered_of_ofCst htree
  obtain ⟨_, _, _, _, hr⟩ := replaced_of_evaluate heval
  obtain ⟨s, hs⟩ := single_of_safe hr hsafe
  obtain ⟨htemplate, hsubs⟩ := hr.mem_below hl (s := s) (by simp [hs])
  simp only [hs, List.all_cons, List.all_nil, Bool.and_true, List.any_eq_true,
    Bool.and_eq_true] at hstatements
  obtain ⟨c, hc, x, hx, y, hy, hwithin, hrepeats⟩ := hstatements
  have hyroot := Place.below_trans htemplate (Place.below_trans hx (Place.child_mem_below hy))
  have hcroot := Place.below_trans htemplate (hsubs c hc).2.1
  have hin := (hl.distinct.isWithin_iff_mem_below hl.top hcroot hyroot).1 hwithin
  exact ⟨tree, place, condition, r, span, s, c, htree, hget, hcondition, heffect, heval, hspan,
    hsafe, hs, hc, x, hx, y, hy, hin, hrepeats⟩

end IfCollapse.Lint
