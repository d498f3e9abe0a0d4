import IfCollapse.Proofs.Faultless
import IfCollapse.Proofs.Replay
import IfCollapse.Proofs.Subtrees
import Mathlib.Data.List.TakeWhile

/-! Silencing annotations. A rule is silent in the declarations that are annotated with its name or with
the name of every rule, and the annotations of a declaration have no say anywhere else. -/

namespace IfCollapse.Java

/-- From a node to one below it, or to itself, through named parts. Every node that is left on the way
has to pass. -/
inductive Cst.Leads (passes : Cst → Prop) : Cst → Cst → Prop
  | here (t : Cst) : Leads passes t t
  | part {t c u : Cst} : passes t → c ∈ t.children → c.row.named = true → Leads passes c u →
      Leads passes t u

theorem Cst.exists_leads_iff {passes Q : Cst → Prop} {t : Cst} :
    (∃ u, t.Leads passes u ∧ Q u) ↔ Q t ∨ passes t ∧
      ∃ c ∈ t.children, c.row.named = true ∧ ∃ u, c.Leads passes u ∧ Q u := by
  constructor
  · intro h
    obtain ⟨u, hleads, hu⟩ := h
    cases hleads with
    | here => exact Or.inl hu
    | part hpass hc hnamed hlater => exact Or.inr ⟨hpass, _, hc, hnamed, u, hlater, hu⟩
  · intro h
    cases h with
    | inl ht => exact ⟨t, .here t, ht⟩
    | inr hpart =>
      obtain ⟨hpass, c, hc, hnamed, u, hlater, hu⟩ := hpart
      exact ⟨u, .part hpass hc hnamed hlater, hu⟩

theorem mem_gathered {α : Type} {a : α} {Q : Cst → Prop} (gather : Cst → Except Fault (List α))
    (gatherAll : List Cst → Except Fault (List α)) (hnil : gatherAll [] = .ok [])
    (hcons : ∀ t trees, gatherAll (t :: trees) =
      if t.row.named then do return (← gather t) ++ (← gatherAll trees) else gatherAll trees)
    {trees : List Cst} {all : List α} (h : gatherAll trees = .ok all)
    (hpart : ∀ t ∈ trees, ∀ part, gather t = .ok part → (a ∈ part ↔ Q t)) :
    a ∈ all ↔ ∃ t ∈ trees, t.row.named = true ∧ Q t := by
  induction trees generalizing all with
  | nil =>
    rw [hnil] at h
    simp [← Except.ok.inj h]
  | cons t trees ih =>
    have hparts := fun u hu => hpart u (List.mem_cons_of_mem t hu)
    rw [hcons] at h
    cases hnamed : t.row.named with
    | false =>
      rw [hnamed, if_neg Bool.false_ne_true] at h
      simp [ih h hparts, hnamed]
    | true =>
      rw [hnamed, if_pos rfl] at h
      obtain ⟨own, hown, h⟩ := bind_eq_ok.1 h
      obtain ⟨rest, hrest, h⟩ := bind_eq_ok.1 h
      have hall : own ++ rest = all := Except.ok.inj h
      simp [← hall, ih hrest hparts, hnamed, hpart t List.mem_cons_self own hown]

theorem mem_flatten_of_mapM {α β : Type} {b : β} {Q : α → Prop} {f : α → Except Fault (List β)}
    {xs : List α} {parts : List (List β)} (h : xs.mapM f = .ok parts)
    (hpart : ∀ x ∈ xs, ∀ part, f x = .ok part → (b ∈ part ↔ Q x)) :
    b ∈ parts.flatten ↔ ∃ x ∈ xs, Q x := by
  induction xs generalizing parts with
  | nil =>
    have hparts : [] = parts := Except.ok.inj h
    simp [← hparts]
  | cons x xs ih =>
    rw [List.mapM_cons] at h
    obtain ⟨own, hown, h⟩ := bind_eq_ok.1 h
    obtain ⟨rest, hrest, h⟩ := bind_eq_ok.1 h
    have hparts : own :: rest = parts := Except.ok.inj h
    have hlater := ih hrest fun y hy => hpart y (List.mem_cons_of_mem x hy)
    rw [← hparts, List.flatten_cons, List.mem_append, hlater,
      hpart x List.mem_cons_self own hown]
    simp

end IfCollapse.Java

namespace IfCollapse.Suppression

open Java

structure Unquoted (text content : List Char) : Prop where
  text_eq : ∃ m n, text = List.replicate m '"' ++ content ++ List.replicate n '"'
  head : content.head? ≠ some '"'
  last : content.getLast? ≠ some '"'

structure NamesRule (source : List Char) (rule : String) (literal : Cst) : Prop where
  kind_eq : literal.kind = "string_literal"
  unquoted : ∃ text, literal.text source = .ok text ∧
    Unquoted text ("ternlint:".toList ++ rule.toList)

structure NoteSilences (source : List Char) (rule : String) (note : Cst) : Prop where
  kind_eq : note.kind = "annotation" ∨ note.kind = "marker_annotation"
  named : ∃ name, note.childByField? "name" = some name ∧
    (name.text source = .ok "SuppressWarnings".toList ∨
      name.text source = .ok "java.lang.SuppressWarnings".toList)
  valued : ∃ arguments literal, note.childByField? "arguments" = some arguments ∧
    arguments.Leads (fun t => t.kind ≠ "string_literal") literal ∧ NamesRule source rule literal

structure DeclarationSilences (source : List Char) (rule : String) (declaration : Cst) : Prop where
  kind_mem : declaration.kind ∈ ["class_declaration", "interface_declaration", "enum_declaration",
    "method_declaration", "constructor_declaration", "field_declaration", "record_declaration",
    "local_variable_declaration"]
  annotated : ∃ modifiers note, declaration.children.find? (·.kind = "modifiers") = some modifiers ∧
    note ∈ modifiers.children ∧ NoteSilences source rule note

section Quotes

variable {text content : List Char}

theorem exists_replicate (text : List Char) : ∃ n, text = List.replicate n '"' ++
    text.dropWhile (· = '"') := by
  refine ⟨(text.takeWhile (· = '"')).length, ?_⟩
  have hquotes : text.takeWhile (· = '"') =
      List.replicate (text.takeWhile (· = '"')).length '"' :=
    List.eq_replicate_of_mem fun c hc => by simpa using List.mem_takeWhile_imp hc
  rw [← hquotes, List.takeWhile_append_dropWhile]

theorem head?_dropWhile_quote (text : List Char) :
    (text.dropWhile (· = '"')).head? ≠ some '"' := by
  intro h
  have hnot := List.head?_dropWhile_not (· = '"') text
  rw [h] at hnot
  simp at hnot

theorem dropWhile_replicate_append (h : content.head? ≠ some '"') (n : Nat) :
    (List.replicate n '"' ++ content).dropWhile (· = '"') = content := by
  induction n with
  | zero =>
    cases content with
    | nil => rfl
    | cons c content =>
      have hc : c ≠ '"' := by simpa using h
      simp [hc]
  | succ n ih => simpa [List.replicate_succ] using ih

theorem unquoted_trimQuotes (text : List Char) : Unquoted text (trimQuotes text) := by
  obtain ⟨m, hm⟩ := exists_replicate text
  obtain ⟨n, hn⟩ := exists_replicate (text.dropWhile (· = '"')).reverse
  have hinner : text.dropWhile (· = '"') = trimQuotes text ++ List.replicate n '"' := by
    have hreverse := congrArg List.reverse hn
    rwa [List.reverse_reverse, List.reverse_append, List.reverse_replicate] at hreverse
  refine ⟨⟨m, n, ?_⟩, ?_, ?_⟩
  · rw [List.append_assoc, ← hinner, ← hm]
  · have hhead := head?_dropWhile_quote text
    rw [hinner, List.head?_append] at hhead
    intro h
    simp [h] at hhead
  · rw [trimQuotes, List.getLast?_reverse]
    exact head?_dropWhile_quote _

theorem Unquoted.trimQuotes_eq (h : Unquoted text content) : trimQuotes text = content := by
  obtain ⟨m, n, htext⟩ := h.text_eq
  have hlast : content.reverse.head? ≠ some '"' := by
    rw [List.head?_reverse]
    exact h.last
  cases content with
  | nil =>
    have hquotes : text = List.replicate (m + n) '"' ++ [] := by
      rw [htext, List.append_nil, List.append_nil, List.replicate_append_replicate]
    rw [trimQuotes, hquotes, dropWhile_replicate_append h.head]
    rfl
  | cons c content =>
    have hhead : (c :: content ++ List.replicate n '"').head? ≠ some '"' := h.head
    rw [trimQuotes, htext, List.append_assoc, dropWhile_replicate_append hhead,
      List.reverse_append, List.reverse_replicate, dropWhile_replicate_append hlast,
      List.reverse_reverse]

theorem trimQuotes_eq_iff : trimQuotes text = content ↔ Unquoted text content :=
  ⟨fun h => h ▸ unquoted_trimQuotes text, Unquoted.trimQuotes_eq⟩

theorem namedRule?_eq_some {rule : String} : namedRule? text = some rule ↔
    Unquoted text ("ternlint:".toList ++ rule.toList) := by
  rw [← trimQuotes_eq_iff, namedRule?]
  constructor
  · intro h
    split at h
    · rename_i hmark
      obtain ⟨name, hname⟩ := List.isPrefixOf_iff_prefix.1 hmark
      rw [← hname, List.drop_left, Option.some.injEq] at h
      have hrule : rule.toList = name := by rw [← h, String.toList_ofList]
      rw [← hname, hrule]
      rfl
    · cases h
  · intro h
    have hmark : ruleMark.toList.isPrefixOf (trimQuotes text) = true := by
      rw [h, List.isPrefixOf_iff_prefix]
      exact List.prefix_append _ _
    have hname : (trimQuotes text).drop ruleMark.toList.length = rule.toList := by
      rw [h]
      exact List.drop_left
    simp only [hmark, if_true, hname, String.ofList_toList]

end Quotes

section Values

variable {source : List Char} {rule : String}

theorem mem_rulesIn (t : Cst) : ∀ rules, rulesIn source t = .ok rules →
    (rule ∈ rules ↔ ∃ literal, t.Leads (fun u => u.kind ≠ "string_literal") literal ∧
      NamesRule source rule literal) := by
  induction t using Cst.induct with
  | node row index children ih =>
    intro rules h
    rw [Cst.exists_leads_iff]
    rw [rulesIn] at h
    split at h
    · -- below a literal nothing counts
      rename_i hkind
      obtain ⟨text, htext, h⟩ := bind_eq_ok.1 h
      have hrules : (namedRule? text).toList = rules := Except.ok.inj h
      rw [← hrules, Option.mem_toList, namedRule?_eq_some]
      constructor
      · intro hunquoted
        exact Or.inl ⟨hkind, text, htext, hunquoted⟩
      · intro hnames
        cases hnames with
        | inl hown =>
          obtain ⟨content, hcontent, hunquoted⟩ := hown.unquoted
          rw [htext] at hcontent
          rwa [Except.ok.inj hcontent]
        | inr hbelow => exact absurd hkind hbelow.1
    · rename_i hkind
      rw [mem_gathered (rulesIn source) (rulesInAll source) rfl (fun _ _ => rfl) h ih]
      constructor
      · intro hparts
        exact Or.inr ⟨hkind, hparts⟩
      · intro hnames
        cases hnames with
        | inl hown => exact absurd hown.kind_eq hkind
        | inr hbelow => exact hbelow.2

theorem contains_annotationNames {name : List Char} :
    annotationNames.contains (String.ofList name) = true ↔
      name = "SuppressWarnings".toList ∨ name = "java.lang.SuppressWarnings".toList := by
  have hname : ∀ other : String, String.ofList name = other ↔ name = other.toList := by
    intro other
    rw [← String.toList_inj, String.toList_ofList]
  simp only [annotationNames, List.contains_iff_mem, List.mem_cons, List.not_mem_nil, or_false,
    hname]

theorem of_mem_annotatedRules {note : Cst} {rules : List String}
    (h : annotatedRules source note = .ok rules) (hmem : rule ∈ rules) :
    ∃ name text arguments, note.childByField? "name" = some name ∧ name.text source = .ok text ∧
      annotationNames.contains (String.ofList text) = true ∧
      note.childByField? "arguments" = some arguments ∧ rulesIn source arguments = .ok rules := by
  have hsome : (pure [] : Except Fault (List String)) ≠ .ok rules := by
    intro hnone
    rw [← Except.ok.inj hnone] at hmem
    cases hmem
  unfold annotatedRules at h
  cases hname : note.childByField? "name" with
  | none =>
    simp only [hname] at h
    exact absurd h hsome
  | some name =>
    simp only [hname] at h
    obtain ⟨text, htext, h⟩ := bind_eq_ok.1 h
    split at h
    · exact absurd h hsome
    · rename_i hcontains
      split at h
      · rename_i arguments harguments
        exact ⟨name, text, arguments, rfl, htext, by simpa using hcontains, harguments, h⟩
      · exact absurd h hsome

theorem annotatedRules_eq {note name arguments : Cst} {text : List Char}
    (hname : note.childByField? "name" = some name) (htext : name.text source = .ok text)
    (hcontains : annotationNames.contains (String.ofList text) = true)
    (harguments : note.childByField? "arguments" = some arguments) :
    annotatedRules source note = rulesIn source arguments := by
  simp only [annotatedRules, hname, htext, bind, Except.bind, hcontains, harguments, Bool.not_true,
    Bool.false_eq_true, if_false]

theorem mem_annotatedRules {note : Cst} {rules : List String}
    (hkind : isAnnotationKind note.kind = true) (h : annotatedRules source note = .ok rules) :
    rule ∈ rules ↔ NoteSilences source rule note := by
  constructor
  · intro hmem
    obtain ⟨name, text, arguments, hname, htext, hcontains, harguments, hrules⟩ :=
      of_mem_annotatedRules h hmem
    obtain ⟨literal, hleads, hnames⟩ := (mem_rulesIn arguments rules hrules).1 hmem
    refine ⟨by simpa [isAnnotationKind] using hkind, ⟨name, hname, ?_⟩,
      arguments, literal, harguments, hleads, hnames⟩
    rw [htext, Except.ok.injEq, Except.ok.injEq]
    exact contains_annotationNames.1 hcontains
  · intro hsilences
    obtain ⟨name, hname, htext⟩ := hsilences.named
    obtain ⟨arguments, literal, harguments, hleads, hnames⟩ := hsilences.valued
    have hrules : annotatedRules source note = rulesIn source arguments := by
      cases htext with
      | inl hshort =>
        exact annotatedRules_eq hname hshort (contains_annotationNames.2 (Or.inl rfl)) harguments
      | inr hlong =>
        exact annotatedRules_eq hname hlong (contains_annotationNames.2 (Or.inr rfl)) harguments
    rw [hrules] at h
    exact (mem_rulesIn arguments rules h).2 ⟨literal, hleads, hnames⟩

theorem isDeclaration_iff {kind : String} : isDeclaration kind = true ↔
    kind ∈ ["class_declaration", "interface_declaration", "enum_declaration",
      "method_declaration", "constructor_declaration", "field_declaration", "record_declaration",
      "local_variable_declaration"] :=
  List.contains_iff_mem

theorem mem_declarationRegions {declaration : Cst} {regions : List Region}
    (h : declarationRegions source declaration = .ok regions) {r : Region} :
    r ∈ regions ↔ DeclarationSilences source r.rule declaration ∧
      r.start = declaration.span.start ∧ r.stop = declaration.span.stop := by
  have hempty : (pure [] : Except Fault (List Region)) = .ok regions → r ∉ regions := by
    intro hnone
    rw [← Except.ok.inj hnone]
    exact List.not_mem_nil
  unfold declarationRegions at h
  split at h
  · rename_i hkind
    refine ⟨fun hr => absurd hr (hempty h), fun hsilences => ?_⟩
    simp [isDeclaration_iff.2 hsilences.1.kind_mem] at hkind
  · rename_i hkind
    split at h
    · rename_i hmodifiers
      refine ⟨fun hr => absurd hr (hempty h), fun hsilences => ?_⟩
      obtain ⟨modifiers, _, hfound, _⟩ := hsilences.1.annotated
      rw [hmodifiers] at hfound
      cases hfound
    · rename_i modifiers hmodifiers
      obtain ⟨parts, hparts, h⟩ := bind_eq_ok.1 h
      have hmem : ∀ rule, rule ∈ parts.flatten ↔
          ∃ note ∈ modifiers.children.filter (isAnnotationKind ·.kind),
            NoteSilences source rule note := by
        intro rule
        exact mem_flatten_of_mapM hparts fun note hnote part hpart =>
          mem_annotatedRules (List.mem_filter.1 hnote).2 hpart
      have hregions : parts.flatten.map (fun rule =>
          (⟨rule, declaration.span.start, declaration.span.stop⟩ : Region)) = regions :=
        Except.ok.inj h
      rw [← hregions, List.mem_map]
      constructor
      · intro hr
        obtain ⟨rule, hrule, rfl⟩ := hr
        obtain ⟨note, hnote, hsilences⟩ := (hmem rule).1 hrule
        exact ⟨⟨isDeclaration_iff.1 (by simpa using hkind), modifiers, note, hmodifiers,
          (List.mem_filter.1 hnote).1, hsilences⟩, rfl, rfl⟩
      · intro hr
        obtain ⟨hsilences, hstart, hstop⟩ := hr
        obtain ⟨others, note, hfound, hnote, hsilences⟩ := hsilences.annotated
        rw [hmodifiers] at hfound
        rw [← Option.some.inj hfound] at hnote
        have hkept : note ∈ modifiers.children.filter (isAnnotationKind ·.kind) :=
          List.mem_filter.2 ⟨hnote, by simpa [isAnnotationKind] using hsilences.kind_eq⟩
        refine ⟨r.rule, (hmem r.rule).2 ⟨note, hkept, hsilences⟩, ?_⟩
        rw [← hstart, ← hstop]

theorem mem_annotationRegions {r : Region} (t : Cst) :
    ∀ regions, annotationRegions source t = .ok regions →
      (r ∈ regions ↔ ∃ declaration, t.Leads (fun _ => True) declaration ∧
        DeclarationSilences source r.rule declaration ∧
          r.start = declaration.span.start ∧ r.stop = declaration.span.stop) := by
  induction t using Cst.induct with
  | node row index children ih =>
    intro regions h
    rw [Cst.exists_leads_iff]
    rw [annotationRegions] at h
    obtain ⟨own, hown, h⟩ := bind_eq_ok.1 h
    obtain ⟨below, hbelow, h⟩ := bind_eq_ok.1 h
    have hall : own ++ below = regions := Except.ok.inj h
    rw [← hall, List.mem_append, mem_declarationRegions hown,
      mem_gathered (annotationRegions source) (annotationRegionsAll source) rfl (fun _ _ => rfl)
        hbelow ih, true_and]
    rfl

end Values

theorem isSuppressed_append {before regions : List Region} {rule : String} {position : Nat} :
    isSuppressed (before ++ regions) rule position =
      (isSuppressed before rule position || isSuppressed regions rule position) :=
  List.any_append

/-- With the regions of annotations a rule is silent where it was before, and in every declaration,
reached through named nodes, whose annotations name it or every rule. -/
theorem isSuppressed_iff_annotated {source : List Char} {root : Cst}
    (h : ∀ t ∈ root.preorder, ∃ text, t.text source = .ok text) :
    ∃ regions, annotationRegions source root = .ok regions ∧
      ∀ before rule position, isSuppressed (before ++ regions) rule position = true ↔
        isSuppressed before rule position = true ∨
          ∃ declaration, root.Leads (fun _ => True) declaration ∧
            declaration.span.start ≤ position ∧ position < declaration.span.stop ∧
            (DeclarationSilences source rule declaration ∨
              DeclarationSilences source "*" declaration) := by
  have hlegible : Legible source fun t => ∀ u ∈ t.preorder, ∃ text, u.text source = .ok text := by
    refine ⟨fun t ht c hc u hu => ht u ((Cst.preorder_sublist_of_child hc).mem hu), fun t ht => ?_⟩
    exact ht t (by rw [t.preorder_eq]; exact List.mem_cons_self)
  obtain ⟨regions, hregions⟩ := exists_annotationRegions hlegible root h
  refine ⟨regions, hregions, fun before rule position => ?_⟩
  rw [isSuppressed_append, Bool.or_eq_true]
  refine or_congr Iff.rfl ?_
  rw [isSuppressed_iff]
  constructor
  · intro hsilent
    obtain ⟨key, hkey, r, hr, hrule, hstart, hstop⟩ := hsilent
    obtain ⟨declaration, hleads, hsilences, hfirst, hlast⟩ :=
      (mem_annotationRegions root regions hregions).1 hr
    rw [hrule] at hsilences
    rw [hfirst] at hstart
    rw [hlast] at hstop
    refine ⟨declaration, hleads, hstart, hstop, ?_⟩
    cases hkey with
    | inl heq => exact Or.inl (heq ▸ hsilences)
    | inr heq =>
      have hevery : key = "*" := heq
      exact Or.inr (hevery ▸ hsilences)
  · intro hannotated
    obtain ⟨declaration, hleads, hstart, hstop, hsilences⟩ := hannotated
    have hregion : ∀ key, DeclarationSilences source key declaration →
        IsSilent regions key position := by
      intro key hkey
      exact ⟨⟨key, declaration.span.start, declaration.span.stop⟩,
        (mem_annotationRegions root regions hregions).2
          ⟨declaration, hleads, hkey, rfl, rfl⟩, rfl, hstart, hstop⟩
    cases hsilences with
    | inl hrule => exact ⟨rule, Or.inl rfl, hregion rule hrule⟩
    | inr hevery => exact ⟨everyRule, Or.inr rfl, hregion "*" hevery⟩

/-- A class against one rule, with a field against every rule. -/
def annotatedText : List Char :=
  ("@SuppressWarnings(\"ternlint:A\") class T " ++
    "\x7b@SuppressWarnings(\x7b\"x\",\"ternlint:*\"\x7d) int f;\x7d").toList

def annotatedTree : Cst :=
  .part "program" 0 86 none [.part "class_declaration" 0 86 none [
    .part "modifiers" 0 31 none [.part "annotation" 0 31 none [
      .part "identifier" 1 16 (some "name") [],
      .part "annotation_argument_list" 17 14 (some "arguments") [.part "string_literal" 18 12 none []]]],
    .part "class_body" 40 46 (some "body") [.part "field_declaration" 41 44 none [
      .part "modifiers" 41 37 none [.part "annotation" 41 37 none [
        .part "identifier" 42 16 (some "name") [],
        .part "annotation_argument_list" 58 20 (some "arguments") [
          .part "element_value_array_initializer" 59 18 none [
            .part "string_literal" 60 3 none [], .part "string_literal" 64 12 none []]]]]]]]]

/-- In front of the field only the class counts, and inside it every rule is silent. -/
theorem field_silences_inside :
    (∀ t ∈ annotatedTree.preorder, ∃ text, t.text annotatedText = .ok text) ∧
    ∃ regions, annotationRegions annotatedText annotatedTree = .ok regions ∧
      isSuppressed regions "A" 40 = true ∧
      (¬∃ declaration, annotatedTree.Leads (fun _ => True) declaration ∧
        declaration.span.start ≤ 40 ∧ 40 < declaration.span.stop ∧
        (DeclarationSilences annotatedText "B" declaration ∨
          DeclarationSilences annotatedText "*" declaration)) ∧
      ∃ declaration, annotatedTree.Leads (fun _ => True) declaration ∧
        declaration.span.start ≤ 41 ∧ 41 < declaration.span.stop ∧
        (DeclarationSilences annotatedText "B" declaration ∨
          DeclarationSilences annotatedText "*" declaration) := by
  have hread : ∀ t ∈ annotatedTree.preorder, ∃ text, t.text annotatedText = .ok text := by
    have hsome : ∀ t ∈ annotatedTree.preorder, (t.text annotatedText).toOption.isSome = true := by
      decide +kernel
    intro t ht
    obtain ⟨text, htext⟩ := Option.isSome_iff_exists.1 (hsome t ht)
    exact ⟨text, toOption_eq_some.1 htext⟩
  have hfound : annotationRegions annotatedText annotatedTree =
      .ok [⟨"A", 0, 86⟩, ⟨"*", 41, 85⟩] := by
    decide +kernel
  obtain ⟨regions, hregions, hiff⟩ := isSuppressed_iff_annotated hread
  rw [hfound] at hregions
  refine ⟨hread, _, hfound, by decide, ?_, ?_⟩
  · intro hannotated
    have hsilent := (hiff [] "B" 40).2 (Or.inr hannotated)
    rw [← Except.ok.inj hregions] at hsilent
    exact absurd hsilent (by decide)
  · have hsilent : isSuppressed ([] ++ regions) "B" 41 = true := by
      rw [← Except.ok.inj hregions]
      decide
    exact ((hiff [] "B" 41).1 hsilent).resolve_left (by decide)

end IfCollapse.Suppression
