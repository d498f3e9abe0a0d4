import IfCollapse.Proofs.Arena
import IfCollapse.Proofs.EvaluationOrder

/-! Conditions that may be evaluated more than once. The test goes down from the top of an
expression through kinds that have no effect of their own, and does not look into tokens and leaves.
What it looks at never acts, so whatever acts in an expression that passes lies in one of these. -/

namespace IfCollapse.Lint

open Java Branch

/-- Expressions with an effect, and those with a body that may have one. -/
def acts (kind : Kind) : Bool :=
  hasEffect kind || kind == .lambdaExpression

def isPlain (kind : Kind) : Bool :=
  isPlainLeaf kind || isPlainCompound kind

def isClosed (p : Place) : Bool :=
  p.isToken || isPlainLeaf p.kind

/-- The test comes from the first place to the second, if all on the way passes. -/
inductive Seen : Place → Place → Prop
  | here (p : Place) : Seen p p
  | part {p c q : Place} : isClosed p = false → c ∈ p.children → c.isToken = false → Seen c q →
      Seen p q

theorem acts_of_isPlain {kind : Kind} (h : isPlain kind = true) : acts kind = false := by
  cases kind <;> first | rfl | simp [isPlain, isPlainLeaf, isPlainCompound] at h

theorem isPlainLeaf_of_compound {kind : Kind} (h : isPlainCompound kind = true) :
    isPlainLeaf kind = false := by
  cases kind <;> first | rfl | simp [isPlainCompound] at h

section Test

variable {p q : Place}

theorem areRepeatable_iff {shapes : List Shape} :
    areRepeatable shapes = true ↔ ∀ s ∈ shapes, s.isToken = true ∨ isRepeatable s = true := by
  induction shapes with
  | nil => simp [areRepeatable]
  | cons s shapes ih =>
    rw [areRepeatable, Bool.and_eq_true, Bool.or_eq_true, ih, List.forall_mem_cons]

theorem isRepeatable_iff_children : isRepeatable p.here = true ↔
    isPlainLeaf p.kind = true ∨ isPlainCompound p.kind = true ∧
      ∀ c ∈ p.children, c.isToken = true ∨ isRepeatable c.here = true := by
  obtain ⟨s, above⟩ := p
  have hchildren : (∀ c ∈ Place.children ⟨s, above⟩, c.isToken = true ∨ isRepeatable c.here = true) ↔
      ∀ t ∈ s.children, t.isToken = true ∨ isRepeatable t = true := by
    rw [Place.children, List.forall_mem_map]
    rfl
  rw [hchildren]
  cases s with
  | token label named => simp [isRepeatable, Shape.children, Place.kind, Shape.kind, Shape.label]
  | node label children =>
    rw [isRepeatable, Bool.or_eq_true, Bool.and_eq_true, areRepeatable_iff]
    rfl

theorem isRepeatable_iff : isRepeatable p.here = true ↔ ∀ q, Seen p q → isPlain q.kind = true := by
  constructor
  · intro h q hq
    induction hq with
    | here p =>
      rw [isPlain, Bool.or_eq_true]
      exact (isRepeatable_iff_children.1 h).imp_right And.left
    | part hopen hc hnode _ ih =>
      rw [isClosed, Bool.or_eq_false_iff] at hopen
      rcases isRepeatable_iff_children.1 h with hleaf | ⟨_, hparts⟩
      · simp [hleaf] at hopen
      · exact ih ((hparts _ hc).resolve_left (by simp [hnode]))
  · intro h
    induction p using Place.induct with
    | step p ih =>
      rw [isRepeatable_iff_children]
      cases Bool.or_eq_true _ _ ▸ h p (.here p) with
      | inl hleaf => exact Or.inl hleaf
      | inr hcompound =>
        refine Or.inr ⟨hcompound, fun c hc => ?_⟩
        cases hnode : c.isToken with
        | true => exact Or.inl rfl
        | false =>
          have hopen : isClosed p = false := by
            rw [isClosed, isPlainLeaf_of_compound hcompound, Bool.or_false, ← Bool.not_eq_true]
            intro htoken
            simp [Place.children_of_isToken htoken] at hc
          exact Or.inr (ih c hc fun q hq => h q (.part hopen hc hnode hq))

theorem seen_or_closed (h : q ∈ p.below) :
    Seen p q ∨ ∃ l ∈ p.below, isClosed l = true ∧ q ∈ l.below := by
  induction p using Place.induct with
  | step p ih =>
    cases hclosed : isClosed p with
    | true => exact Or.inr ⟨p, p.mem_below_self, hclosed, h⟩
    | false =>
      rcases Place.mem_below_iff.1 h with rfl | ⟨c, hc, hin⟩
      · exact Or.inl (.here q)
      · cases hnode : c.isToken with
        | true =>
          have hc' : isClosed c = true := by rw [isClosed, hnode, Bool.true_or]
          exact Or.inr ⟨c, Place.child_mem_below hc, hc', hin⟩
        | false =>
          rcases ih c hc hin with hseen | ⟨l, hl, hclosed', hql⟩
          · exact Or.inl (.part hclosed hc hnode hseen)
          · exact Or.inr ⟨l, Place.mem_below_of_child hc hl, hclosed', hql⟩

end Test

/-- The test decides exactly whether all that it comes to is plain. An expression that passes holds
nothing that acts exactly if no token and no leaf in it does. -/
theorem repeatable_effectless_iff {source : Source} {cst : Cst} {tree : Tree} {id : Nat}
    {place : Place} (htree : Tree.ofCst source cst = .ok tree) (hget : tree.get? id = some place) :
    (isRepeatable place.here = true ↔ ∀ q, Seen place q → isPlain q.kind = true) ∧
    (isRepeatable place.here = true →
      ((∀ q ∈ tree.places, q.isWithin place.id = true → acts q.kind = false) ↔
        ∀ l ∈ tree.places, l.isWithin place.id = true → isClosed l = true →
          ∀ q ∈ tree.places, q.isWithin l.id = true → acts q.kind = false)) := by
  refine ⟨isRepeatable_iff, fun hrepeatable => ?_⟩
  obtain ⟨root, hl⟩ := lowered_of_ofCst htree
  have hplace := hl.mem_below hget
  rw [hl.places_eq]
  have hwithin : ∀ {q l}, q ∈ root.below → l ∈ root.below →
      (q.isWithin l.id = true ↔ q ∈ l.below) :=
    fun hq hl' => hl.distinct.isWithin_iff_mem_below hl.top hq hl'
  constructor
  · intro hnone l hlroot hlin _ q hq hqin
    refine hnone q hq ((hwithin hq hplace).2 ?_)
    exact Place.below_trans ((hwithin hlroot hplace).1 hlin) ((hwithin hq hlroot).1 hqin)
  · intro hclosed q hq hqin
    rcases seen_or_closed ((hwithin hq hplace).1 hqin) with hseen | ⟨l, hlin, hlclosed, hql⟩
    · exact acts_of_isPlain (isRepeatable_iff.1 hrepeatable q hseen)
    · have hlroot := Place.below_trans hplace hlin
      exact hclosed l hlroot ((hwithin hlroot hplace).2 hlin) hlclosed q hq
        ((hwithin hq hlroot).2 hql)

/-- The tree of `x == "…"`, whatever the parts of the string are. -/
def comparison (length : Nat) (parts : List Cst) : Cst :=
  .part "binary_expression" 0 (length + 5) none [
    .part "identifier" 0 1 (some "left") [], .mark "==" 2,
    .part "string_literal" 5 length (some "right") parts]

def letterComparison : Cst :=
  comparison 3 [.mark "\"" 5, .part "string_fragment" 6 1 none [], .mark "\"" 7]

def letterComparisonText : Source := .ofText "x == \"a\"".toList

theorem comparison_is_effectless : ∃ tree place,
    Tree.ofCst letterComparisonText letterComparison = .ok tree ∧ tree.get? 0 = some place ∧
    isRepeatable place.here = true ∧
    ∀ q ∈ tree.places, q.isWithin place.id = true → acts q.kind = false := by
  have hcheck : (Tree.ofCst letterComparisonText letterComparison).toOption.any (fun tree =>
      (tree.get? 0).any fun place => isRepeatable place.here &&
        tree.places.all fun l => !isClosed l ||
          tree.places.all fun q => !(q.isWithin l.id && acts q.kind)) = true := by
    decide +kernel
  obtain ⟨tree, hsome, hplace⟩ := (Option.any_eq_true _ _).1 hcheck
  have htree := toOption_eq_some.1 hsome
  obtain ⟨place, hget, hfound⟩ := (Option.any_eq_true _ _).1 hplace
  rw [Bool.and_eq_true] at hfound
  refine ⟨tree, place, htree, hget, hfound.1,
    ((repeatable_effectless_iff htree hget).2 hfound.1).2 ?_⟩
  intro l hl _ hclosed q hq hqin
  have hleaf := List.all_eq_true.1 hfound.2 l hl
  rw [hclosed, Bool.not_true, Bool.false_or] at hleaf
  simpa [hqin] using List.all_eq_true.1 hleaf q hq

/-- A string can have the value of a call in it. -/
def templateComparison : Cst :=
  comparison 11 [
    .mark "\"" 5,
    .part "string_interpolation" 6 9 none [
      .mark "\\\x7b" 6,
      .part "method_invocation" 8 6 none [
        .part "identifier" 8 1 (some "name") [],
        .part "argument_list" 9 5 (some "arguments") [
          .mark "(" 9,
          .part "string_literal" 10 3 none [
            .mark "\"" 10, .part "string_fragment" 11 1 none [], .mark "\"" 12],
          .mark ")" 13]],
      .mark "\x7d" 14],
    .mark "\"" 15]

def templateComparisonText : Source := .ofText "x == \"\\\x7bf(\"a\")\x7d\"".toList

/-- The comparison with such a string passes, and the call in it acts. -/
theorem template_call_is_repeatable : ∃ tree place q, templateComparison.WellFormed ∧
    Tree.ofCst templateComparisonText templateComparison = .ok tree ∧
    tree.get? 0 = some place ∧ isRepeatable place.here = true ∧ q ∈ tree.places ∧
    q.isWithin place.id = true ∧ q.here.name = "method_invocation" ∧ acts q.kind = true := by
  have hwell : templateComparison.WellFormed := by decide
  have hcheck : (Tree.ofCst templateComparisonText templateComparison).toOption.any (fun tree =>
      (tree.get? 0).any fun place => isRepeatable place.here &&
        tree.places.any fun q => q.isWithin place.id &&
          (q.here.name == "method_invocation" && acts q.kind)) = true := by
    decide +kernel
  obtain ⟨tree, hsome, hplace⟩ := (Option.any_eq_true _ _).1 hcheck
  have htree := toOption_eq_some.1 hsome
  simp only [Option.any_eq_true, Bool.and_eq_true, List.any_eq_true, beq_iff_eq] at hplace
  obtain ⟨place, hget, hrepeatable, q, hq, hwithin, hname, hacts⟩ := hplace
  exact ⟨tree, place, q, hwell, htree, hget, hrepeatable, hq, hwithin, hname, hacts⟩

end IfCollapse.Lint
