import IfCollapse.Lint.Report
import IfCollapse.Proofs.Rendering
import IfCollapse.Proofs.Scanning

/-! Linting answers every request about a tree that a parser made of the text: no span is reversed,
no slice lies outside the text or ends inside a character, and no fix is empty. -/

namespace IfCollapse.Java

mutual

/-- A tree as a parser makes it of a text. Every node starts and ends between characters, its parts
lie in it one after another, it has an error if one of them has, and it is not empty if it has
none. -/
def Cst.ParsedFrom (text : List Char) : Cst → Prop
  | .node row _ children =>
    isBoundary text row.span.start = true ∧ isBoundary text row.span.stop = true ∧
      (row.hasError = false → row.span.start < row.span.stop) ∧
      Cst.PartsFrom text row.hasError row.span.start row.span.stop children

def Cst.PartsFrom (text : List Char) (hasError : Bool) (lo hi : Nat) : List Cst → Prop
  | [] => True
  | t :: trees =>
    lo ≤ t.span.start ∧ t.span.stop ≤ hi ∧ (t.row.hasError = true → hasError = true) ∧
      t.ParsedFrom text ∧ Cst.PartsFrom text hasError t.span.stop hi trees

end

mutual

def Cst.decideParsedFrom (text : List Char) : (t : Cst) → Decidable (t.ParsedFrom text)
  | .node row _ children =>
    have := Cst.decidePartsFrom text row.hasError row.span.start row.span.stop children
    inferInstanceAs (Decidable (_ ∧ _ ∧ _ ∧ _))

def Cst.decidePartsFrom (text : List Char) (hasError : Bool) (lo hi : Nat) :
    (trees : List Cst) → Decidable (Cst.PartsFrom text hasError lo hi trees)
  | [] => inferInstanceAs (Decidable True)
  | t :: trees =>
    have := t.decideParsedFrom text
    have := Cst.decidePartsFrom text hasError t.span.stop hi trees
    inferInstanceAs (Decidable (_ ∧ _ ∧ _ ∧ _ ∧ _))

end

instance (text : List Char) (t : Cst) : Decidable (t.ParsedFrom text) := t.decideParsedFrom text

section Parsed

variable {text : List Char}

theorem Cst.PartsFrom.of_mem {hasError : Bool} {lo hi : Nat} {trees : List Cst} {t : Cst}
    (h : Cst.PartsFrom text hasError lo hi trees) (ht : t ∈ trees) : t.ParsedFrom text := by
  induction trees generalizing lo with
  | nil => simp at ht
  | cons u trees ih =>
    obtain ⟨_, _, _, hu, hrest⟩ := h
    cases List.mem_cons.1 ht with
    | inl heq => rwa [heq]
    | inr hmem => exact ih hrest hmem

theorem Cst.ParsedFrom.child {t c : Cst} (h : t.ParsedFrom text) (hc : c ∈ t.children) :
    c.ParsedFrom text := by
  obtain ⟨row, index, children⟩ := t
  exact h.2.2.2.of_mem hc

theorem Cst.ParsedFrom.exists_text {t : Cst} (h : t.ParsedFrom text) :
    ∃ content, t.text text = .ok content := by
  obtain ⟨row, index, children⟩ := t
  exact exists_slice h.1 h.2.1

mutual

theorem wellFormed_of_parsedFrom : ∀ (t : Cst), t.ParsedFrom text → t.row.hasError = false →
    t.WellFormed
  | .node row _ children, h, herror => by
    obtain ⟨_, _, hnonempty, hparts⟩ := h
    change row.hasError = false at herror
    rw [herror] at hparts
    exact ⟨hnonempty herror, consecutive_of_partsFrom children hparts⟩

theorem consecutive_of_partsFrom : ∀ (trees : List Cst) {lo hi : Nat},
    Cst.PartsFrom text false lo hi trees → Cst.Consecutive lo hi trees
  | [], _, _, _ => trivial
  | t :: trees, lo, hi, h => by
    obtain ⟨hlo, hhi, herror, ht, hrest⟩ := h
    have hclean : t.row.hasError = false := by
      cases hflag : t.row.hasError with
      | false => rfl
      | true => exact absurd (herror hflag) (by simp)
    exact ⟨hlo, hhi, wellFormed_of_parsedFrom t ht hclean, consecutive_of_partsFrom trees hrest⟩

end

theorem Cst.ParsedFrom.of_reaches {t u : Cst} (h : t.ParsedFrom text) (hu : t.Reaches u) :
    u.ParsedFrom text := by
  induction hu with
  | here t => exact h
  | part hc _ _ ih => exact ih (h.child hc)

theorem exists_lower (t : Cst) (field : Option String) (next : Nat) (h : t.ParsedFrom text) :
    ∃ result, lower text t field next = .ok result :=
  exists_lower_of_readable t field next fun _ hu => (h.of_reaches hu).exists_text

theorem exists_ofCst {t : Cst} (h : t.ParsedFrom text) :
    ∃ tree, Tree.ofCst (.ofText text) t = .ok tree := by
  obtain ⟨⟨shape, after⟩, hshape⟩ := exists_lower t none 0 h
  exact ⟨⟨.ofText text, Arena.build t, placesFrom [] shape⟩, ofCst_of_lower hshape⟩

end Parsed

section Walk

variable {P : Cst → Prop}

structure Cursor.All (P : Cst → Prop) (c : Cursor) : Prop where
  node : P c.node
  later : ∀ t ∈ c.later, P t
  above : ∀ entry ∈ c.above, P entry.1 ∧ ∀ t ∈ entry.2, P t

theorem Cursor.All.toNextSibling {c d : Cursor} (h : c.All P) (hd : c.toNextSibling? = some d) :
    d.All P := by
  unfold toNextSibling? at hd
  cases hlater : c.later with
  | nil => simp [hlater] at hd
  | cons sibling later =>
    simp only [hlater, Option.some.injEq] at hd
    subst hd
    have hall := h.later
    rw [hlater] at hall
    exact ⟨hall sibling List.mem_cons_self, fun t ht => hall t (List.mem_cons_of_mem _ ht), h.above⟩

theorem all_of_toNextAbove {above : List (Cst × List Cst)} {d : Cursor}
    (h : ∀ entry ∈ above, P entry.1 ∧ ∀ t ∈ entry.2, P t)
    (hd : Cursor.toNextAbove? above = some d) : d.All P := by
  induction above with
  | nil => simp [Cursor.toNextAbove?] at hd
  | cons entry above ih =>
    obtain ⟨node, later⟩ := entry
    obtain ⟨hnode, hlater⟩ := h (node, later) List.mem_cons_self
    have habove : ∀ entry ∈ above, P entry.1 ∧ ∀ t ∈ entry.2, P t :=
      fun entry he => h entry (List.mem_cons_of_mem _ he)
    have hall : Cursor.All P ⟨node, later, above⟩ := ⟨hnode, hlater, habove⟩
    rw [Cursor.toNextAbove?] at hd
    split at hd
    · rename_i c hc
      rw [← Option.some.inj hd]
      exact hall.toNextSibling hc
    · exact ih habove hd

variable (hered : ∀ t, P t → ∀ c ∈ t.children, P c)

include hered

theorem Cursor.All.next {c d : Cursor} (h : c.All P) (hd : c.next? = some d) : d.All P := by
  unfold next? at hd
  split at hd
  · rename_i e he
    rw [← Option.some.inj hd]
    unfold toFirstChild? at he
    cases hchildren : c.node.children with
    | nil => simp [hchildren] at he
    | cons child children =>
      simp only [hchildren, Option.some.injEq] at he
      subst he
      have hparts := hered c.node h.node
      rw [hchildren] at hparts
      refine ⟨hparts child List.mem_cons_self, fun t ht => hparts t (List.mem_cons_of_mem _ ht), ?_⟩
      intro entry hentry
      cases List.mem_cons.1 hentry with
      | inl heq =>
        rw [heq]
        exact ⟨h.node, h.later⟩
      | inr hmem => exact h.above entry hmem
  · split at hd
    · rename_i e he
      rw [← Option.some.inj hd]
      exact h.toNextSibling he
    · exact all_of_toNextAbove h.above hd

theorem all_of_mem_take {n : Nat} {w : Walker} (h : ∀ c, w.cursor = some c → c.All P) :
    ∀ c ∈ w.take n, c.All P := by
  induction n generalizing w with
  | zero => simp [Walker.take]
  | succ n ih =>
    obtain ⟨cursor⟩ := w
    cases cursor with
    | none => simp [Walker.take, Walker.next]
    | some c =>
      have hc := h c rfl
      intro d hd
      rw [Walker.take] at hd
      cases List.mem_cons.1 hd with
      | inl heq => rwa [heq]
      | inr hmem => exact ih (fun e he => hc.next hered he) d hmem

theorem all_of_mem_places {t : Cst} (ht : P t) : ∀ c ∈ t.places, c.All P := by
  apply all_of_mem_take hered
  intro c hc
  rw [← Option.some.inj hc]
  exact ⟨ht, by simp [Cursor.start], by simp [Cursor.start]⟩

end Walk

end IfCollapse.Java

namespace IfCollapse

theorem exists_bind {α β : Type} {x : Except Fault α} {f : α → Except Fault β}
    (hx : ∃ a, x = .ok a) (hf : ∀ a, ∃ b, f a = .ok b) : ∃ b, x >>= f = .ok b := by
  obtain ⟨a, rfl⟩ := hx
  exact hf a

theorem exists_mapM {α β : Type} {f : α → Except Fault β} {xs : List α}
    (h : ∀ x ∈ xs, ∃ y, f x = .ok y) : ∃ ys, xs.mapM f = .ok ys := by
  induction xs with
  | nil => exact ⟨[], rfl⟩
  | cons x xs ih =>
    obtain ⟨y, hy⟩ := h x List.mem_cons_self
    obtain ⟨ys, hys⟩ := ih fun z hz => h z (List.mem_cons_of_mem x hz)
    refine ⟨y :: ys, ?_⟩
    simp only [List.mapM_cons, hy, hys, bind, Except.bind, pure, Except.pure]

namespace Suppression

open Java

structure Legible (text : List Char) (P : Cst → Prop) : Prop where
  child : ∀ t, P t → ∀ c ∈ t.children, P c
  exists_text : ∀ t, P t → ∃ content, t.text text = .ok content

variable {text : List Char} {P : Cst → Prop}

mutual

theorem exists_rulesIn (hp : Legible text P) : ∀ (t : Cst), P t →
    ∃ rules, rulesIn text t = .ok rules
  | .node row index children, h => by
    obtain ⟨content, hcontent⟩ := hp.exists_text _ h
    rw [rulesIn]
    split
    · simp only [hcontent, bind, Except.bind, pure, Except.pure]
      exact ⟨_, rfl⟩
    · exact exists_rulesInAll hp children (hp.child _ h)

theorem exists_rulesInAll (hp : Legible text P) : ∀ (trees : List Cst), (∀ t ∈ trees, P t) →
    ∃ rules, rulesInAll text trees = .ok rules
  | [], _ => ⟨[], rfl⟩
  | t :: trees, h => by
    obtain ⟨rest, hrest⟩ := exists_rulesInAll hp trees
      fun u hu => h u (List.mem_cons_of_mem t hu)
    obtain ⟨own, hown⟩ := exists_rulesIn hp t (h t List.mem_cons_self)
    rw [rulesInAll]
    split
    · simp only [hown, hrest, bind, Except.bind, pure, Except.pure]
      exact ⟨_, rfl⟩
    · exact ⟨rest, hrest⟩

end

theorem exists_annotatedRules (hp : Legible text P) {note : Cst} (h : P note) :
    ∃ rules, annotatedRules text note = .ok rules := by
  have hpart : ∀ field part, note.childByField? field = some part → P part :=
    fun field part hfound => hp.child _ h _ (List.mem_of_find?_eq_some hfound)
  unfold annotatedRules
  cases hname : note.childByField? "name"
  on_goal 1 => refine exists_bind ⟨[], rfl⟩ fun name => ?_
  on_goal 2 => refine exists_bind (hp.exists_text _ (hpart _ _ hname)) fun name => ?_
  -- whatever the name is, the rest is the same
  all_goals
    dsimp only
    split
    · exact ⟨[], rfl⟩
    · split
      · rename_i arguments harguments
        exact exists_rulesIn hp arguments (hpart _ _ harguments)
      · exact ⟨[], rfl⟩

theorem exists_declarationRegions (hp : Legible text P) {declaration : Cst}
    (h : P declaration) :
    ∃ regions, declarationRegions text declaration = .ok regions := by
  unfold declarationRegions
  split
  · exact ⟨[], rfl⟩
  · split
    · exact ⟨[], rfl⟩
    · rename_i modifiers hmodifiers
      have hparts := hp.child _ (hp.child _ h _ (List.mem_of_find?_eq_some hmodifiers))
      have hnotes : ∀ note ∈ modifiers.children.filter (isAnnotationKind ·.kind),
          ∃ rules, annotatedRules text note = .ok rules :=
        fun note hnote => exists_annotatedRules hp (hparts note (List.mem_filter.1 hnote).1)
      obtain ⟨rules, hrules⟩ := exists_mapM hnotes
      simp only [hrules, bind, Except.bind, pure, Except.pure]
      exact ⟨_, rfl⟩

mutual

theorem exists_annotationRegions (hp : Legible text P) : ∀ (t : Cst), P t →
    ∃ regions, annotationRegions text t = .ok regions
  | .node row index children, h => by
    obtain ⟨own, hown⟩ := exists_declarationRegions hp h
    obtain ⟨rest, hrest⟩ := exists_annotationRegionsAll hp children (hp.child _ h)
    simp only [annotationRegions, hown, hrest, bind, Except.bind, pure, Except.pure]
    exact ⟨_, rfl⟩

theorem exists_annotationRegionsAll (hp : Legible text P) : ∀ (trees : List Cst),
    (∀ t ∈ trees, P t) →
    ∃ regions, annotationRegionsAll text trees = .ok regions
  | [], _ => ⟨[], rfl⟩
  | t :: trees, h => by
    obtain ⟨rest, hrest⟩ := exists_annotationRegionsAll hp trees
      fun u hu => h u (List.mem_cons_of_mem t hu)
    obtain ⟨own, hown⟩ := exists_annotationRegions hp t (h t List.mem_cons_self)
    rw [annotationRegionsAll]
    split
    · simp only [hown, hrest, bind, Except.bind, pure, Except.pure]
      exact ⟨_, rfl⟩
    · exact ⟨rest, hrest⟩

end

end Suppression

namespace Lint

open Java Branch Suppression

variable {text : List Char}

theorem exists_suppressions {root : Cst} (h : root.ParsedFrom text)
    (filters : List Suppression.Filter) :
    ∃ regions, suppressions text root filters = .ok regions := by
  obtain ⟨fromComments, hcomments⟩ := exists_commentRegions text filters
  have hparsed : Legible text (Cst.ParsedFrom text) :=
    ⟨fun _ ht _ hc => ht.child hc, fun _ ht => ht.exists_text⟩
  obtain ⟨fromAnnotations, hannotations⟩ := exists_annotationRegions hparsed root h
  refine ⟨fromComments ++ fromAnnotations, ?_⟩
  simp only [suppressions, hcomments, hannotations, bind, Except.bind, pure, Except.pure]

theorem eq_replace_of_filter {verdict : Verdict} {r : Replacement} {p : Replacement → Bool}
    (h : verdict.replacement?.filter p = some r) : verdict = .replace r := by
  cases verdict with
  | keep why => simp [Verdict.replacement?] at h
  | replace r' =>
    rw [Option.filter_eq_some_iff] at h
    rw [Option.some.inj h.1]

theorem exists_checkIf (options : Options) {c : Cursor} (h : c.All (·.ParsedFrom text)) :
    ∃ remarks, checkIf options (.ofText text) c = .ok remarks := by
  unfold checkIf
  cases hparent : c.parent? with
  | none => exact ⟨_, rfl⟩
  | some parent =>
    simp only
    split
    · exact ⟨_, rfl⟩
    · rename_i hclean
      simp only [ne_eq, Bool.or_eq_true, decide_eq_true_eq, not_or, Bool.not_eq_true] at hclean
      have hparsed : parent.ParsedFrom text := by
        obtain ⟨entry, hentry, rfl⟩ := Option.map_eq_some_iff.1 hparent
        exact (h.above entry (List.mem_of_head? hentry)).1
      have hwell := wellFormed_of_parsedFrom parent hparsed hclean.2
      obtain ⟨tree, htree⟩ := exists_ofCst hparsed
      obtain ⟨root, hl⟩ := lowered_of_ofCst htree
      simp only [htree, bind, Except.bind]
      split
      · exact ⟨_, rfl⟩
      · split
        · exact ⟨_, rfl⟩
        · rename_i verdict hverdict
          split
          · exact ⟨_, rfl⟩
          · rename_i r hr
            rw [eq_replace_of_filter hr] at hverdict
            obtain ⟨finding, hfinding⟩ := exists_findingOf hl hwell hverdict tree.comments
              (c.node.children.head?.getD c.node).span
            simp only [hfinding, pure, Except.pure]
            exact ⟨_, rfl⟩

theorem check_of_create? {name : String} {properties : Properties} {rule : Rule}
    (h : Registry.builtin.create? name properties = some rule) :
    rule.check = checkIf (Options.ofProperties properties) := by
  have hmakers : Registry.builtin.makers = [(Rule.ifToTernaryName, fun properties =>
      Rule.ifToTernary (Options.ofProperties properties))] := rfl
  unfold Registry.create? at h
  rw [hmakers, List.lookup_cons, List.lookup_nil] at h
  cases hname : name == Rule.ifToTernaryName with
  | false => simp [hname] at h
  | true =>
    simp only [hname, Option.map_some, Option.some.injEq] at h
    rw [← h]
    rfl

theorem exists_visit {rule : Rule} {regions : List Region} {c : Cursor}
    (h : ∃ remarks, rule.check (.ofText text) c = .ok remarks) :
    ∃ report, visit (.ofText text) regions c rule = .ok report := by
  obtain ⟨remarks, hremarks⟩ := h
  unfold visit
  split
  · exact ⟨_, rfl⟩
  · simp only [hremarks, bind, Except.bind, pure, Except.pure]
    exact ⟨_, rfl⟩

/-- Whatever the rules, their settings and the filters are, linting gives a report. -/
theorem exists_report {text : List Char} {root : Cst} {rules : List Rule}
    (hroot : root.ParsedFrom text)
    (hrules : ∀ rule ∈ rules, ∃ name properties,
      Registry.builtin.create? name properties = some rule)
    (filters : List Suppression.Filter) :
    ∃ report, lint (.ofText text) root rules filters = .ok report := by
  obtain ⟨regions, hregions⟩ := exists_suppressions hroot filters
  have hvisit : ∀ c ∈ root.places, ∃ reports,
      rules.mapM (visit (.ofText text) regions c) = .ok reports := by
    intro c hc
    have hall : c.All (·.ParsedFrom text) :=
      all_of_mem_places (fun t ht u hu => ht.child hu) hroot c hc
    apply exists_mapM
    intro rule hrule
    obtain ⟨name, properties, hcreate⟩ := hrules rule hrule
    apply exists_visit
    rw [check_of_create? hcreate]
    exact exists_checkIf _ hall
  obtain ⟨visits, hvisits⟩ := exists_mapM hvisit
  have htext : (Source.ofText text).text = text := rfl
  simp only [lint, htext, hregions, hvisits, bind, Except.bind, pure, Except.pure]
  exact ⟨_, rfl⟩

def accentedText : List Char :=
  "\x7b\r\n\tif (c) f(\"é\"); else f(\"b\"); // ü\r\n\x7d".toList

/-- The rows of the text, with a semicolon at its end that the parser missed. -/
def accentedRows : List Row :=
  [part 0 "program" true 0 41 none, part 1 "block" false 0 41 none, mark 2 "\x7b" 0,
    part 2 "if_statement" false 4 28 none, mark 3 "if" 4,
    part 3 "parenthesized_expression" false 7 3 (some "condition"), mark 4 "(" 7,
    part 4 "identifier" false 8 1 none, mark 4 ")" 9,
    part 3 "expression_statement" false 11 8 (some "consequence"),
    part 4 "method_invocation" false 11 7 none, part 5 "identifier" false 11 1 (some "name"),
    part 5 "argument_list" false 12 6 (some "arguments"), mark 6 "(" 12,
    part 6 "string_literal" false 13 4 none, mark 7 "\"" 13,
    part 7 "string_fragment" false 14 2 none, mark 7 "\"" 16, mark 6 ")" 17, mark 4 ";" 18,
    mark 3 "else" 20, part 3 "expression_statement" false 25 7 (some "alternative"),
    part 4 "method_invocation" false 25 6 none, part 5 "identifier" false 25 1 (some "name"),
    part 5 "argument_list" false 26 5 (some "arguments"), mark 6 "(" 26,
    part 6 "string_literal" false 27 3 none, mark 7 "\"" 27,
    part 7 "string_fragment" false 28 1 none, mark 7 "\"" 29, mark 6 ")" 30, mark 4 ";" 31,
    ⟨2, "line_comment", true, true, false, ⟨33, 39, by decide⟩, none⟩, mark 2 "\x7d" 40,
    part 1 ";" true 41 0 none]
where
  part (depth : Nat) (kind : String) (hasError : Bool) (start length : Nat)
      (field : Option String) : Row :=
    { (Cst.part kind start length field []).row with depth := depth, hasError := hasError }
  mark (depth : Nat) (token : String) (start : Nat) : Row :=
    { (Cst.mark token start).row with depth := depth }

theorem accented_text_is_linted : ∃ root report, Cst.ofRows? accentedRows = some root ∧
    root.ParsedFrom accentedText ∧
    lint (.ofText accentedText) root [Rule.ifToTernary {}] [Suppression.Filter.default] =
      .ok report ∧ report.findings.length = 1 := by
  have hcheck : (Cst.ofRows? accentedRows).any (fun root =>
      decide (root.ParsedFrom accentedText) &&
      match lint (.ofText accentedText) root [Rule.ifToTernary {}] [Suppression.Filter.default] with
      | .ok report => report.findings.length == 1
      | .error _ => false) = true := by
    decide +kernel
  obtain ⟨root, hroot, hfound⟩ := (Option.any_eq_true _ _).1 hcheck
  rw [Bool.and_eq_true, decide_eq_true_eq] at hfound
  have hrules : ∀ rule ∈ [Rule.ifToTernary {}], ∃ name properties,
      Registry.builtin.create? name properties = some rule := by
    intro rule hrule
    rw [List.mem_singleton.1 hrule]
    exact ⟨Rule.ifToTernaryName, [], rfl⟩
  obtain ⟨report, hreport⟩ := exists_report hfound.1 hrules [Suppression.Filter.default]
  rw [hreport] at hfound
  exact ⟨root, report, hroot, hfound.1, hreport, by simpa using hfound.2⟩

end Lint

end IfCollapse
