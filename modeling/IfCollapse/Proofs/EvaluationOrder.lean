import IfCollapse.Proofs.Applicability

/-! When the condition moves behind an effect. An `if` evaluates its condition before its statement;
a replacement evaluates it where the conditional expressions stand. The order stays the same exactly
if no effect is on the way to them. -/

namespace IfCollapse.Branch

open Java

def hasEffect : Kind → Bool
  | .methodInvocation | .objectCreationExpression | .assignmentExpression => true
  | .other name => name == "update_expression"
  | _ => false

def isEffect (p : Place) : Bool :=
  !p.isToken && hasEffect p.kind

inductive Step where
  | condition
  | effect (id : Nat)
  deriving DecidableEq, Repr

mutual

/-- The evaluations of the condition and the effects outside the targets, from left to right: an
effect comes after those of its parts. -/
def steps (targets : List Nat) : Shape → List Step
  | .token label _ => if label.id ∈ targets then [.condition] else []
  | .node label children =>
    if label.id ∈ targets then [.condition]
    else stepsAll targets children ++
      if hasEffect (Kind.ofName label.name) then [.effect label.id] else []

def stepsAll (targets : List Nat) : List Shape → List Step
  | [] => []
  | s :: shapes => steps targets s ++ stepsAll targets shapes

end

def ConditionFirst (order : List Step) : Prop :=
  order.Pairwise fun a b => b = .condition → a = .condition

instance (order : List Step) : Decidable (ConditionFirst order) :=
  inferInstanceAs (Decidable (List.Pairwise _ _))

theorem stepsAll_eq (targets : List Nat) (shapes : List Shape) :
    stepsAll targets shapes = shapes.flatMap (steps targets) := by
  induction shapes with
  | nil => rfl
  | cons s shapes ih => rw [stepsAll, ih, List.flatMap_cons]

section Steps

variable {targets : List Nat} {p : Place}

theorem steps_of_target (h : p.id ∈ targets) : steps targets p.here = [.condition] := by
  obtain ⟨s, above⟩ := p
  cases s with
  | token label named =>
    change label.id ∈ targets at h
    simp [steps, h]
  | node label parts =>
    change label.id ∈ targets at h
    simp [steps, h]

theorem steps_of_not_target (h : p.id ∉ targets) :
    steps targets p.here = p.children.flatMap (fun c => steps targets c.here) ++
      if isEffect p then [.effect p.id] else [] := by
  obtain ⟨s, above⟩ := p
  cases s with
  | token label named =>
    change label.id ∉ targets at h
    simp [steps, h, Place.children, Shape.children, isEffect, Place.isToken, Shape.isToken]
  | node label parts =>
    change label.id ∉ targets at h
    simp only [steps, h, if_false, stepsAll_eq, Place.children, Shape.children, List.flatMap_map]
    rfl

theorem condition_mem_steps :
    .condition ∈ steps targets p.here ↔ ∃ q ∈ p.below, q.id ∈ targets := by
  induction p using Place.induct with
  | step p ih =>
    by_cases hp : p.id ∈ targets
    · rw [steps_of_target hp]
      simp only [List.mem_singleton, true_iff]
      exact ⟨p, p.mem_below_self, hp⟩
    · rw [steps_of_not_target hp]
      have hown : Step.condition ∉ (if isEffect p then [Step.effect p.id] else []) := by
        split <;> simp
      simp only [List.mem_append, List.mem_flatMap, hown, or_false]
      constructor
      · rintro ⟨c, hc, hin⟩
        obtain ⟨q, hq, hqt⟩ := (ih c hc).1 hin
        exact ⟨q, Place.mem_below_of_child hc hq, hqt⟩
      · rintro ⟨q, hq, hqt⟩
        rcases Place.mem_below_iff.1 hq with rfl | ⟨c, hc, hqc⟩
        · exact absurd hqt hp
        · exact ⟨c, hc, (ih c hc).2 ⟨q, hqc, hqt⟩⟩

def Outside (targets : List Nat) (p e : Place) : Prop :=
  ∀ q ∈ p.below, e ∈ q.below → q.id ∉ targets

theorem outside_iff_child {c e : Place} (hdist : p.Distinct) (hc : c ∈ p.children)
    (he : e ∈ c.below) : Outside targets p e ↔ p.id ∉ targets ∧ Outside targets c e := by
  constructor
  · intro h
    refine ⟨h p p.mem_below_self (Place.mem_below_of_child hc he), ?_⟩
    intro q hq hin
    exact h q (Place.mem_below_of_child hc hq) hin
  · rintro ⟨hp, h⟩ q hq hin
    rcases Place.mem_below_iff.1 hq with rfl | ⟨d, hd, hqd⟩
    · exact hp
    · obtain ⟨i, hi⟩ := List.mem_iff_getElem?.1 hc
      obtain ⟨j, hj⟩ := List.mem_iff_getElem?.1 hd
      have hij := hdist.child_eq hi hj he (Place.below_trans hqd hin)
      rw [hij, hj] at hi
      cases hi
      exact h q hqd hin

theorem effect_mem_steps {n : Nat} (hdist : p.Distinct) : .effect n ∈ steps targets p.here ↔
    ∃ e ∈ p.below, e.id = n ∧ isEffect e = true ∧ Outside targets p e := by
  induction p using Place.induct with
  | step p ih =>
    by_cases hp : p.id ∈ targets
    · rw [steps_of_target hp]
      simp only [List.mem_singleton, reduceCtorEq, false_iff]
      rintro ⟨e, he, _, _, hout⟩
      exact hout p p.mem_below_self he hp
    · rw [steps_of_not_target hp, List.mem_append, List.mem_flatMap]
      constructor
      · rintro (⟨c, hc, hin⟩ | hown)
        · obtain ⟨e, he, hid, heff, hout⟩ := (ih c hc (hdist.child hc)).1 hin
          exact ⟨e, Place.mem_below_of_child hc he, hid, heff,
            (outside_iff_child hdist hc he).2 ⟨hp, hout⟩⟩
        · split at hown
          · rename_i heff
            simp only [List.mem_singleton, Step.effect.injEq] at hown
            refine ⟨p, p.mem_below_self, hown.symm, heff, ?_⟩
            intro q hq hin
            rw [← Place.below_antisymm hq hin]
            exact hp
          · simp at hown
      · rintro ⟨e, he, rfl, heff, hout⟩
        rcases Place.mem_below_iff.1 he with rfl | ⟨c, hc, hec⟩
        · exact Or.inr (by simp [heff])
        · exact Or.inl ⟨c, hc, (ih c hc (hdist.child hc)).2
            ⟨e, hec, rfl, heff, ((outside_iff_child hdist hc hec).1 hout).2⟩⟩

structure Rivals (targets : List Nat) (p e q : Place) : Prop where
  effect_mem : e ∈ p.below
  effect : isEffect e = true
  outside : Outside targets p e
  target_mem : q ∈ p.below
  target : q.id ∈ targets

theorem Rivals.of_child {c e q : Place} (hdist : p.Distinct) (hp : p.id ∉ targets)
    (hc : c ∈ p.children) (h : Rivals targets c e q) : Rivals targets p e q where
  effect_mem := Place.mem_below_of_child hc h.effect_mem
  effect := h.effect
  outside := (outside_iff_child hdist hc h.effect_mem).2 ⟨hp, h.outside⟩
  target_mem := Place.mem_below_of_child hc h.target_mem
  target := h.target

/-- An effect that is over before a target starts lies in the same child as the target or in an
earlier one. -/
theorem Rivals.cases {e q : Place} (hdist : p.Distinct) (hord : p.here.Ordered)
    (h : Rivals targets p e q) (hle : e.span.stop ≤ q.span.start) :
    (∃ c ∈ p.children, Rivals targets c e q) ∨
      ∃ (i j : Nat) (c d : Place), i < j ∧ p.children[i]? = some c ∧ p.children[j]? = some d ∧
        e ∈ c.below ∧ Outside targets c e ∧ q ∈ d.below := by
  obtain ⟨hqo, _, hqstop⟩ := Place.span_of_mem_below hord h.target_mem
  have hqne : q.span.start < q.span.stop := hqo.nonempty
  have hene : e.span.start < e.span.stop := (Place.span_of_mem_below hord h.effect_mem).1.nonempty
  have hp : p.id ∉ targets := h.outside p p.mem_below_self h.effect_mem
  rcases Place.mem_below_iff.1 h.effect_mem with rfl | ⟨c, hc, hec⟩
  · omega
  rcases Place.mem_below_iff.1 h.target_mem with rfl | ⟨d, hd, hqd⟩
  · exact absurd h.target hp
  have hout := ((outside_iff_child hdist hc hec).1 h.outside).2
  obtain ⟨i, hi⟩ := List.mem_iff_getElem?.1 hc
  obtain ⟨j, hj⟩ := List.mem_iff_getElem?.1 hd
  rcases Nat.lt_trichotomy i j with hij | hij | hij
  · exact Or.inr ⟨i, j, c, d, hij, hi, hj, hec, hout, hqd⟩
  · rw [hij, hj] at hi
    cases hi
    exact Or.inl ⟨c, hc, hec, h.effect, hout, hqd, h.target⟩
  · have hback := Place.stop_le_start_of_children hord hij hj hi hqd hec
    omega

theorem conditionFirst_iff_children (h : p.id ∉ targets) :
    ConditionFirst (steps targets p.here) ↔
      (∀ c ∈ p.children, ConditionFirst (steps targets c.here)) ∧
        p.children.Pairwise fun c d => ∀ a ∈ steps targets c.here, ∀ b ∈ steps targets d.here,
          b = .condition → a = .condition := by
  rw [steps_of_not_target h, ConditionFirst, List.pairwise_append, List.pairwise_flatMap]
  -- the own effect of `p` is the last step, so it is before nothing
  have hlast : (if isEffect p then [Step.effect p.id] else []).Pairwise
      fun a b => b = Step.condition → a = Step.condition := by
    split
    · exact List.pairwise_singleton _ _
    · exact List.Pairwise.nil
  have hcross : ∀ a ∈ p.children.flatMap (fun c => steps targets c.here),
      ∀ b ∈ (if isEffect p then [Step.effect p.id] else []),
        b = Step.condition → a = Step.condition := by
    intro a _ b hb heq
    split at hb
    · rw [heq] at hb
      simp at hb
    · simp at hb
  exact ⟨fun hall => hall.1, fun hall => ⟨hall, hlast, hcross⟩⟩

theorem conditionFirst_iff (hdist : p.Distinct) (hord : p.here.Ordered) :
    ConditionFirst (steps targets p.here) ↔
      ∀ e q, Rivals targets p e q → ¬e.span.stop ≤ q.span.start := by
  induction p using Place.induct with
  | step p ih =>
    by_cases hp : p.id ∈ targets
    · rw [steps_of_target hp]
      refine ⟨?_, fun _ => List.pairwise_singleton _ _⟩
      intro _ e q h
      exact absurd hp (h.outside p p.mem_below_self h.effect_mem)
    · rw [conditionFirst_iff_children hp]
      have hchild : ∀ c ∈ p.children, (ConditionFirst (steps targets c.here) ↔
          ∀ e q, Rivals targets c e q → ¬e.span.stop ≤ q.span.start) := by
        intro c hc
        have hco := (Place.span_of_mem_below hord (Place.child_mem_below hc)).1
        exact ih c hc (hdist.child hc) hco
      constructor
      · rintro ⟨hall, hpairs⟩ e q h hle
        rcases h.cases hdist hord hle with ⟨c, hc, hin⟩ | ⟨i, j, c, d, hij, hi, hj, he, hout, hq⟩
        · exact (hchild c hc).1 (hall c hc) e q hin hle
        · have hcdist := hdist.child (List.mem_of_getElem? hi)
          have hstep := (effect_mem_steps hcdist).2 ⟨e, he, rfl, h.effect, hout⟩
          have hcond := condition_mem_steps.2 ⟨q, hq, h.target⟩
          obtain ⟨hilt, rfl⟩ := List.getElem?_eq_some_iff.1 hi
          obtain ⟨hjlt, rfl⟩ := List.getElem?_eq_some_iff.1 hj
          have hsame := List.pairwise_iff_getElem.1 hpairs i j hilt hjlt hij _ hstep _ hcond rfl
          simp at hsame
      · intro hnone
        refine ⟨fun c hc => (hchild c hc).2 fun e q h => hnone e q (h.of_child hdist hp hc), ?_⟩
        rw [List.pairwise_iff_getElem]
        intro i j hi hj hij a ha b hb hcond
        have hci := List.getElem?_eq_getElem hi
        have hdj := List.getElem?_eq_getElem hj
        have hc := List.mem_of_getElem? hci
        have hd := List.mem_of_getElem? hdj
        cases a with
        | condition => rfl
        | effect n =>
          rw [hcond] at hb
          obtain ⟨e, he, _, heff, hout⟩ := (effect_mem_steps (hdist.child hc)).1 ha
          obtain ⟨q, hq, hqt⟩ := condition_mem_steps.1 hb
          have hrivals : Rivals targets p e q := {
            effect_mem := Place.mem_below_of_child hc he
            effect := heff
            outside := (outside_iff_child hdist hc he).2 ⟨hp, hout⟩
            target_mem := Place.mem_below_of_child hd hq
            target := hqt }
          exact absurd (Place.stop_le_start_of_children hord hij hci hdj he hq)
            (hnone e q hrivals)

end Steps

namespace Statement

def steps (s : Statement) : List Step :=
  Branch.steps s.targets s.template.here

variable {s : Statement}

theorem mem_targets_iff {q : Place} (hdist : s.template.Distinct) (hq : q ∈ s.template.below)
    (hmem : ∀ c ∈ s.substitutions, c.target ∈ s.template.below) :
    q.id ∈ s.targets ↔ ∃ c ∈ s.substitutions, c.target = q := by
  rw [targets, List.mem_map]
  constructor
  · rintro ⟨c, hc, hid⟩
    exact ⟨c, hc, hdist.eq (hmem c hc) hq hid⟩
  · rintro ⟨c, hc, rfl⟩
    exact ⟨c, hc, rfl⟩

theorem conditionFirst_steps_iff (hdist : s.template.Distinct) (hord : s.template.here.Ordered)
    (hmem : ∀ c ∈ s.substitutions, c.target ∈ s.template.below) :
    ConditionFirst s.steps ↔ ∀ e ∈ s.template.below, isEffect e = true →
      (∀ c ∈ s.substitutions, e ∉ c.target.below) →
        ∀ c ∈ s.substitutions, ¬e.span.stop ≤ c.target.span.start := by
  rw [steps, conditionFirst_iff hdist hord]
  constructor
  · intro h e he heff hout c hc
    refine h e c.target ⟨he, heff, ?_, hmem c hc, List.mem_map_of_mem hc⟩
    intro q hq hin htarget
    obtain ⟨d, hd, rfl⟩ := (mem_targets_iff hdist hq hmem).1 htarget
    exact hout d hd hin
  · intro h e q hrivals
    obtain ⟨c, hc, rfl⟩ := (mem_targets_iff hdist hrivals.target_mem hmem).1 hrivals.target
    refine h e hrivals.effect_mem hrivals.effect ?_ c hc
    intro d hd hin
    exact hrivals.outside d.target (hmem d hd) hin (List.mem_map_of_mem hd)

end Statement

end IfCollapse.Branch

namespace IfCollapse.Lint

open Java Branch

/-- In the one statement of a safe replacement no effect outside the targets ends before a target
starts, exactly if the condition is the first step of the statement. -/
theorem safe_keeps_order_iff {source : Source} {cst : Cst} {tree : Tree} {id : Nat}
    {r : Replacement} {comments : List Span} {span : Span} (hwell : cst.WellFormed)
    (htree : Tree.ofCst source cst = .ok tree) (h : evaluate tree id = .ok (.replace r))
    (hsafe : applicability comments span r = .safe) :
    ∃ s, r.statements = [s] ∧
      ((∀ e ∈ s.template.below, isEffect e = true → (∀ c ∈ s.substitutions, e ∉ c.target.below) →
        ∀ c ∈ s.substitutions, ¬e.span.stop ≤ c.target.span.start) ↔ ConditionFirst s.steps) := by
  obtain ⟨root, hl⟩ := lowered_of_ofCst htree
  obtain ⟨place, condition, sites, borrowed, hr⟩ := replaced_of_evaluate h
  obtain ⟨s, hs⟩ := single_of_safe hr hsafe
  obtain ⟨htemplate, hsubs⟩ := hr.mem_below hl (s := s) (by simp [hs])
  have hdist := hl.distinct.of_mem_below htemplate
  have hord := (Place.span_of_mem_below (hl.ordered hwell) htemplate).1
  exact ⟨s, hs, (Statement.conditionFirst_steps_iff hdist hord fun c hc => (hsubs c hc).2.1).symm⟩

/-- The tree of `f(g(), 1);` or `f(1, g());`, whatever the number is. -/
def twoArguments (start : Nat) (callFirst : Bool) (field : String) : Cst :=
  .part "expression_statement" start 10 (some field) [
    .part "method_invocation" start 9 none [
      .part "identifier" start 1 (some "name") [],
      .part "argument_list" (start + 1) 8 (some "arguments")
        (if callFirst then
          [.mark "(" (start + 1), call (start + 2), .mark "," (start + 5), number (start + 7),
            .mark ")" (start + 8)]
        else
          [.mark "(" (start + 1), number (start + 2), .mark "," (start + 3), call (start + 5),
            .mark ")" (start + 8)])],
    .mark ";" (start + 9)]
where
  number (start : Nat) : Cst := .part "decimal_integer_literal" start 1 none []
  call (start : Nat) : Cst :=
    .part "method_invocation" start 3 none [
      .part "identifier" start 1 (some "name") [],
      .part "argument_list" (start + 1) 2 (some "arguments") [
        .mark "(" (start + 1), .mark ")" (start + 2)]]

def chosenArgument (callFirst : Bool) : Cst :=
  .part "if_statement" 0 33 none [
    .mark "if" 0,
    .part "parenthesized_expression" 3 3 (some "condition") [
      .mark "(" 3, .part "identifier" 4 1 none [], .mark ")" 5],
    twoArguments 7 callFirst "consequence", .mark "else" 18,
    twoArguments 23 callFirst "alternative"]

def chosenArgumentText (callFirst : Bool) : Source :=
  .ofText (if callFirst then "if (c) f(g(), 1); else f(g(), 2);".toList
    else "if (c) f(1, g()); else f(2, g());".toList)

theorem later_call_keeps_order : ∃ tree r span s, (chosenArgument false).WellFormed ∧
    Tree.ofCst (chosenArgumentText false) (chosenArgument false) = .ok tree ∧
    evaluate tree 0 = .ok (.replace r) ∧ applicability tree.comments span r = .safe ∧
    r.statements = [s] ∧ ConditionFirst s.steps ∧
    ∀ e ∈ s.template.below, isEffect e = true → (∀ c ∈ s.substitutions, e ∉ c.target.below) →
      ∀ c ∈ s.substitutions, ¬e.span.stop ≤ c.target.span.start := by
  have hwell : (chosenArgument false).WellFormed := by decide
  have hcheck : (replacementAt? (chosenArgumentText false) (chosenArgument false) 0).any
      (fun found => isSafe found.1 found.2 &&
        found.2.statements.all fun s => decide (ConditionFirst s.steps)) = true := by
    decide +kernel
  obtain ⟨tree, r, htree, heval, hfound⟩ := exists_of_replacementAt? hcheck
  rw [Bool.and_eq_true] at hfound
  obtain ⟨span, _, hsafe⟩ := isSafe_iff.1 hfound.1
  obtain ⟨s, hs, hiff⟩ := safe_keeps_order_iff hwell htree heval hsafe
  have hfirst : ConditionFirst s.steps := by simpa [hs] using hfound.2
  exact ⟨tree, r, span, s, hwell, htree, heval, hsafe, hs, hfirst, hiff.2 hfirst⟩

/-- A safe replacement of `if (c) f(g(), 1); else f(g(), 2);` calls `g` before it evaluates `c`. -/
theorem earlier_call_overtakes : ∃ tree r span s, (chosenArgument true).WellFormed ∧
    Tree.ofCst (chosenArgumentText true) (chosenArgument true) = .ok tree ∧
    evaluate tree 0 = .ok (.replace r) ∧ r.span = .ok span ∧
    applicability tree.comments span r = .safe ∧ r.statements = [s] ∧
    ∃ e ∈ s.template.below, isEffect e = true ∧ (∀ c ∈ s.substitutions, e ∉ c.target.below) ∧
      ∃ c ∈ s.substitutions, e.span.stop ≤ c.target.span.start := by
  have hwell : (chosenArgument true).WellFormed := by decide
  have hcheck : (replacementAt? (chosenArgumentText true) (chosenArgument true) 0).any
      (fun found => isSafe found.1 found.2 &&
        found.2.statements.all fun s => s.template.below.any fun e => isEffect e &&
          (s.substitutions.all fun c => !e.isWithin c.target.id) &&
          s.substitutions.any fun c => decide (e.span.stop ≤ c.target.span.start)) = true := by
    decide +kernel
  obtain ⟨tree, r, htree, heval, hfound⟩ := exists_of_replacementAt? hcheck
  rw [Bool.and_eq_true] at hfound
  obtain ⟨span, hspan, hsafe⟩ := isSafe_iff.1 hfound.1
  obtain ⟨_, _, _, _, hr⟩ := replaced_of_evaluate heval
  obtain ⟨s, hs⟩ := single_of_safe hr hsafe
  have hall := hfound.2
  simp only [hs, List.all_cons, List.all_nil, Bool.and_true, List.any_eq_true, Bool.and_eq_true,
    List.all_eq_true, Bool.not_eq_true', decide_eq_true_eq] at hall
  obtain ⟨e, he, ⟨heff, hout⟩, c, hc, hle⟩ := hall
  refine ⟨tree, r, span, s, hwell, htree, heval, hspan, hsafe, hs, e, he, heff, ?_, c, hc, hle⟩
  intro d hd hin
  have hwithin := hout d hd
  rw [Place.isWithin_of_mem_below hin] at hwithin
  simp at hwithin

end IfCollapse.Lint
