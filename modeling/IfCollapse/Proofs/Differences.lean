import IfCollapse.Proofs.Arena
import IfCollapse.Proofs.Strays
import Mathlib.Data.List.Forall2

/-! Where the differences between two nodes stand: at the same paths below both, none inside
another, in the order of the source, and each where the two sides part. -/

namespace IfCollapse.Java.Place

theorem length_children (p : Place) : p.children.length = p.here.children.length :=
  List.length_map _

theorem child_of_here {p : Place} {i : Nat} {s : Shape} (h : p.here.children[i]? = some s) :
    p.children[i]? = some ⟨s, p.line⟩ := by
  rw [children, List.getElem?_map, h]
  rfl

theorem child_of_drop {p : Place} {k : Nat} {s : Shape} {rest : List Shape}
    (h : p.here.children.drop k = s :: rest) :
    p.children[k]? = some ⟨s, p.line⟩ ∧ p.here.children.drop (k + 1) = rest := by
  constructor
  · apply child_of_here
    rw [← List.head?_drop, h]
    rfl
  · rw [← List.drop_drop, h]
    rfl

end IfCollapse.Java.Place

namespace IfCollapse.Branch

open Java

/-- The two places themselves disagree, or two of their children do: a token faces a node or a token
unlike it. -/
def Mismatch (p q : Place) : Prop :=
  p.here.name ≠ q.here.name ∨ p.children.length ≠ q.children.length ∨
    ∃ (i : Nat) (c d : Place), p.children[i]? = some c ∧ q.children[i]? = some d ∧
      ¬Comparable c d

structure Located (p q : Place) (d : Difference) (path : List Nat) : Prop where
  before : p.descend path = some d.before
  after : q.descend path = some d.after
  ancestors : ∀ front, front <+: path → front ≠ path → ∃ x y, p.descend front = some x ∧
    q.descend front = some y ∧ x.here.name = y.here.name ∧ x.children.length = y.children.length
  mismatch : Mismatch d.before d.after

/-- The first of two paths comes first, and neither leads through the other's end. -/
def Forks (path other : List Nat) : Prop :=
  path < other ∧ ¬path <+: other ∧ ¬other <+: path

theorem forks_of_lt {i j : Nat} (h : i < j) (path other : List Nat) :
    Forks (i :: path) (j :: other) := by
  have hne : ¬j = i := by omega
  refine ⟨List.cons_lt_cons_iff.2 (Or.inl h), ?_, ?_⟩
  · simp [List.cons_prefix_cons, Ne.symm hne]
  · simp [List.cons_prefix_cons, hne]

theorem Forks.cons {path other : List Nat} (h : Forks path other) (i : Nat) :
    Forks (i :: path) (i :: other) := by
  refine ⟨List.cons_lt_cons_iff.2 (Or.inr ⟨rfl, h.1⟩), ?_, ?_⟩
  · simp [List.cons_prefix_cons, h.2.1]
  · simp [List.cons_prefix_cons, h.2.2]

section Pairs

variable {p q : Place} {ds : List Difference}

theorem not_comparable_of_compareAt (h : compareAt p q = none) : ¬Comparable p q := by
  intro hcomparable
  obtain ⟨ds, hds, _⟩ := compareAt_of_comparable hcomparable
  rw [hds] at h
  simp at h

theorem compareAll_eq_none {above above' : List Shape} {shapes others : List Shape}
    (h : compareAll above shapes above' others = none) :
    ∃ (i : Nat) (a b : Shape), shapes[i]? = some a ∧ others[i]? = some b ∧
      compare above a above' b = none := by
  induction shapes generalizing others with
  | nil =>
    rw [compareAll.eq_def] at h
    simp at h
  | cons s shapes ih =>
    cases others with
    | nil =>
      rw [compareAll.eq_def] at h
      simp at h
    | cons t others =>
      rw [compareAll] at h
      cases hc : compare above s above' t with
      | none => exact ⟨0, s, t, rfl, rfl, hc⟩
      | some part =>
        cases hr : compareAll above shapes above' others with
        | some more => simp [hc, hr] at h
        | none =>
          obtain ⟨i, a, b, ha, hb, hab⟩ := ih hr
          exact ⟨i + 1, a, b, ha, hb, hab⟩

theorem mismatch_of_compareAll
    (h : compareAll p.line p.here.children q.line q.here.children = none) : Mismatch p q := by
  obtain ⟨i, a, b, ha, hb, hab⟩ := compareAll_eq_none h
  exact Or.inr (Or.inr
    ⟨i, _, _, Place.child_of_here ha, Place.child_of_here hb, not_comparable_of_compareAt hab⟩)

theorem Located.of_child {c c' : Place} {i : Nat} {d : Difference} {path : List Nat}
    (hc : p.children[i]? = some c) (hc' : q.children[i]? = some c')
    (hname : p.here.name = q.here.name) (hlen : p.children.length = q.children.length)
    (h : Located c c' d path) : Located p q d (i :: path) where
  before := Place.descend_cons.2 ⟨c, hc, h.before⟩
  after := Place.descend_cons.2 ⟨c', hc', h.after⟩
  ancestors front hfront hne := by
    cases front with
    | nil => exact ⟨p, q, rfl, rfl, hname, hlen⟩
    | cons j front =>
      obtain ⟨rfl, hrest⟩ := List.cons_prefix_cons.1 hfront
      obtain ⟨x, y, hx, hy, hxy⟩ := h.ancestors front hrest fun he => hne (he ▸ rfl)
      exact ⟨x, y, Place.descend_cons.2 ⟨c, hc, hx⟩, Place.descend_cons.2 ⟨c', hc', hy⟩, hxy⟩
  mismatch := h.mismatch

def Paths (p q : Place) (ds : List Difference) (paths : List (List Nat)) : Prop :=
  List.Forall₂ (Located p q) ds paths ∧ paths.Pairwise Forks

theorem exists_paths_of_children {shapes others : List Shape} {k : Nat}
    (hname : p.here.name = q.here.name) (hlen : p.children.length = q.children.length)
    (ih : ∀ (i : Nat) (c c' : Place) (part : List Difference), p.children[i]? = some c →
      q.children[i]? = some c' → compareAt c c' = some part → ∃ paths, Paths c c' part paths)
    (hs : p.here.children.drop k = shapes) (ht : q.here.children.drop k = others)
    (h : compareAll p.line shapes q.line others = some ds) :
    ∃ paths, Paths p q ds paths ∧ ∀ path ∈ paths, ∃ i rest, k ≤ i ∧ path = i :: rest := by
  induction shapes generalizing others k ds with
  | nil =>
    rw [compareAll.eq_def] at h
    simp only [Option.some.injEq] at h
    subst h
    exact ⟨[], ⟨List.Forall₂.nil, List.Pairwise.nil⟩, by simp⟩
  | cons s shapes ihs =>
    cases others with
    | nil =>
      rw [compareAll.eq_def] at h
      simp only [Option.some.injEq] at h
      subst h
      exact ⟨[], ⟨List.Forall₂.nil, List.Pairwise.nil⟩, by simp⟩
    | cons t others =>
      rw [compareAll] at h
      cases hpart : compare p.line s q.line t with
      | none => simp [hpart] at h
      | some part =>
        cases hmore : compareAll p.line shapes q.line others with
        | none => simp [hpart, hmore] at h
        | some more =>
          simp only [hpart, hmore, Option.some.injEq] at h
          subst h
          obtain ⟨hc, hs'⟩ := Place.child_of_drop hs
          obtain ⟨hc', ht'⟩ := Place.child_of_drop ht
          obtain ⟨first, hfirst, hforks⟩ := ih k _ _ part hc hc' hpart
          obtain ⟨later, ⟨hlater, hforks'⟩, hheads⟩ := ihs hs' ht' hmore
          -- paths through child `k` fork from all later ones at their first step
          refine ⟨first.map (k :: ·) ++ later, ⟨?_, ?_⟩, ?_⟩
          · refine List.rel_append ?_ hlater
            rw [List.forall₂_map_right_iff]
            exact hfirst.imp fun d path hd => hd.of_child hc hc' hname hlen
          · refine List.pairwise_append.2 ⟨?_, hforks', ?_⟩
            · exact List.pairwise_map.2 (hforks.imp fun hab => hab.cons k)
            · intro path hpath other hother
              obtain ⟨rest, _, rfl⟩ := List.mem_map.1 hpath
              obtain ⟨i, rest', hi, rfl⟩ := hheads other hother
              exact forks_of_lt hi rest rest'
          · intro path hpath
            cases List.mem_append.1 hpath with
            | inl hpath =>
              obtain ⟨rest, _, rfl⟩ := List.mem_map.1 hpath
              exact ⟨k, rest, Nat.le_refl k, rfl⟩
            | inr hpath =>
              obtain ⟨i, rest, hi, rfl⟩ := hheads path hpath
              exact ⟨i, rest, by omega, rfl⟩

theorem exists_paths (h : compareAt p q = some ds) : ∃ paths, Paths p q ds paths := by
  induction p using Place.induct generalizing q ds with
  | step p ih =>
    rcases compareAt_cases h with ⟨_, rfl⟩ | ⟨_, _, _, rfl⟩ | ⟨_, _, rfl, hpart⟩ |
      ⟨_, _, hname, hlen, hall⟩
    · exact ⟨[], List.Forall₂.nil, List.Pairwise.nil⟩
    · exact ⟨[], List.Forall₂.nil, List.Pairwise.nil⟩
    · have hmismatch : Mismatch p q := by
        rcases hpart with hname | hlen | hnone
        · exact Or.inl hname
        · exact Or.inr (Or.inl (by rwa [Place.length_children, Place.length_children]))
        · exact mismatch_of_compareAll hnone
      refine ⟨[[]], List.Forall₂.cons ⟨rfl, rfl, ?_, hmismatch⟩ List.Forall₂.nil,
        List.pairwise_singleton _ _⟩
      intro front hfront hne
      exact absurd (List.prefix_nil.1 hfront) hne
    · rw [← Place.length_children, ← Place.length_children] at hlen
      obtain ⟨paths, hpaths, _⟩ := exists_paths_of_children hname hlen
        (fun i c c' part hc _ hpart => ih c (List.mem_of_getElem? hc) hpart)
        List.drop_zero List.drop_zero hall
      exact ⟨paths, hpaths⟩

theorem located_of_mem {d : Difference} (h : compareAt p q = some ds) (hd : d ∈ ds) :
    ∃ path, Located p q d path := by
  obtain ⟨paths, hpaths, _⟩ := exists_paths h
  obtain ⟨⟨i, hi⟩, rfl⟩ := List.mem_iff_get.1 hd
  exact ⟨_, hpaths.get hi (hpaths.length_eq ▸ hi)⟩

theorem nodes_of_mem_compare {d : Difference} (h : compareAt p q = some ds) (hd : d ∈ ds) :
    d.before.isToken = false ∧ d.after.isToken = false := by
  induction p using Place.induct generalizing q ds with
  | step p ih =>
    rcases compareAt_cases h with ⟨_, rfl⟩ | ⟨_, _, _, rfl⟩ | ⟨hp, hq, rfl, _⟩ |
      ⟨_, _, _, _, hall⟩
    · simp at hd
    · simp at hd
    · rw [List.mem_singleton.1 hd]
      exact ⟨hp, hq⟩
    · obtain ⟨i, c, c', part, hc, _, hpart, hd'⟩ := (compareAll_children hall).2 d hd
      exact ih c (List.mem_of_getElem? hc) hpart hd'

theorem compareAt_eq_differences (hpn : p.isToken = false) (hqn : q.isToken = false) :
    compareAt p q = some (differences p q) := by
  obtain ⟨ds, hds, hdiff⟩ := compareAt_of_nodes hpn hqn
  rw [hds, hdiff]

end Pairs

/-- The differences between any two elements are pairs of nodes. Those between two nodes stand at
common paths, which come in lexicographic order and never lead through one another, below nodes
that agree in name and number of children; and each is where the two sides part. -/
theorem differences_located {source : Source} {cst : Cst} {tree : Tree} {p q : Place} {b a : Nat}
    (htree : Tree.ofCst source cst = .ok tree) (hp : tree.get? b = some p)
    (hq : tree.get? a = some q) :
    (∀ d ∈ differences p q, d.before.isToken = false ∧ d.after.isToken = false) ∧
      (p.isToken = false → q.isToken = false →
        ∃ paths, List.Forall₂ (Located p q) (differences p q) paths ∧
          paths.Pairwise fun path other => path < other ∧ ¬path <+: other ∧ ¬other <+: path) := by
  obtain ⟨root, hl⟩ := lowered_of_ofCst htree
  constructor
  · intro d hd
    unfold differences at hd
    split at hd
    · rename_i ds hds
      exact nodes_of_mem_compare (p := p) (q := q) hds hd
    · split at hd
      · rename_i b' a' hb ha
        have hparent := Place.child_of_parent? hl.top (hl.mem_below hp) hb
        have hparent' := Place.child_of_parent? hl.top (hl.mem_below hq) ha
        rw [List.mem_singleton.1 hd]
        exact ⟨Place.isToken_of_mem_children hparent.2, Place.isToken_of_mem_children hparent'.2⟩
      · simp at hd
  · intro hpn hqn
    exact exists_paths (compareAt_eq_differences hpn hqn)

def tripleText : Source :=
  .ofText "\x7b g(a, x + p, b); g(c, y - p, d); \x7d".toList

/-- The tree of a call of `g` with a name, a sum or difference of names, and a name. -/
def tripleCall (start : Nat) (operator : String) : Cst :=
  .part "expression_statement" start 15 none [
    .part "method_invocation" start 14 none [
      .part "identifier" start 1 (some "name") [],
      .part "argument_list" (start + 1) 13 (some "arguments") [
        .mark "(" (start + 1),
        .part "identifier" (start + 2) 1 none [],
        .mark "," (start + 3),
        .part "binary_expression" (start + 5) 5 none [
          .part "identifier" (start + 5) 1 (some "left") [], .mark operator (start + 7),
          .part "identifier" (start + 9) 1 (some "right") []],
        .mark "," (start + 10),
        .part "identifier" (start + 12) 1 none [],
        .mark ")" (start + 13)]],
    .mark ";" (start + 14)]

def tripleTree : Cst :=
  .part "block" 0 35 none [
    .mark "\x7b" 0, tripleCall 2 "+", tripleCall 18 "-", .mark "\x7d" 34]

/-- Two calls differ in all three arguments, in the second one by its operator and not by the name
before that; the operators themselves differ at the nodes around them. -/
theorem arguments_differ_in_order : ∃ tree p q t u,
    Tree.ofCst tripleText tripleTree = .ok tree ∧ tree.get? 2 = some p ∧ tree.get? 22 = some q ∧
    tree.get? 14 = some t ∧ tree.get? 34 = some u ∧ t.isToken = true ∧ u.isToken = true ∧
    (differences p q).map (fun d => (d.before.id, d.after.id)) = [(8, 28), (11, 31), (18, 38)] ∧
    (∃ paths, List.Forall₂ (Located p q) (differences p q) paths ∧
      paths.Pairwise fun path other => path < other ∧ ¬path <+: other ∧ ¬other <+: path) ∧
    (differences t u).map (fun d => (d.before.id, d.after.id)) = [(11, 31)] ∧
    ∀ d ∈ differences t u, d.before.isToken = false ∧ d.after.isToken = false := by
  have hcheck : (match Tree.ofCst tripleText tripleTree with
      | .ok tree => (tree.get? 2).any fun p => (tree.get? 22).any fun q =>
          (tree.get? 14).any fun t => (tree.get? 34).any fun u =>
            !p.isToken && !q.isToken && t.isToken && u.isToken &&
              (differences p q).map (fun d => (d.before.id, d.after.id)) ==
                [(8, 28), (11, 31), (18, 38)] &&
              (differences t u).map (fun d => (d.before.id, d.after.id)) == [(11, 31)]
      | .error _ => false) = true := by
    decide +kernel
  split at hcheck
  · rename_i tree htree
    simp only [Bool.and_eq_true, Option.any_eq_true, Bool.not_eq_true', beq_iff_eq] at hcheck
    obtain ⟨p, hp, q, hq, t, ht, u, hu, ⟨⟨⟨⟨hpn, hqn⟩, htt⟩, hut⟩, hthree⟩, hone⟩ := hcheck
    have hpaths := (differences_located htree hp hq).2 hpn hqn
    have hnodes := (differences_located htree ht hu).1
    exact ⟨tree, p, q, t, u, htree, hp, hq, ht, hu, htt, hut, hthree, hpaths, hone, hnodes⟩
  · simp at hcheck

end IfCollapse.Branch
