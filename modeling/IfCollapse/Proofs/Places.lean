import IfCollapse.Java.Tree
import Mathlib.Data.List.Nodup

/-! Places in a tree: everything below a place, going down along child numbers, and the chain of
elements from a place up to the root. -/

namespace IfCollapse.Java

@[elab_as_elim, induction_eliminator]
theorem Shape.induct {motive : Shape → Prop}
    (token : ∀ label named, motive (.token label named))
    (node : ∀ label children, (∀ c ∈ children, motive c) → motive (.node label children)) :
    ∀ s, motive s
  | .token label named => token label named
  | .node label children => node label children fun c _ => Shape.induct token node c

theorem placesFromAll_eq (above : List Shape) (shapes : List Shape) :
    placesFromAll above shapes = shapes.flatMap (placesFrom above) := by
  induction shapes with
  | nil => rfl
  | cons s shapes ih => rw [placesFromAll, ih, List.flatMap_cons]

namespace Place

def below (p : Place) : List Place :=
  placesFrom p.above p.here

def line (p : Place) : List Shape :=
  p.here :: p.above

def descend (p : Place) : List Nat → Option Place
  | [] => some p
  | i :: path => p.children[i]?.bind fun c => c.descend path

theorem below_eq (p : Place) : p.below = p :: p.children.flatMap below := by
  obtain ⟨s, above⟩ := p
  cases s with
  | token label named => rfl
  | node label parts =>
    rw [below, placesFrom, placesFromAll_eq, children, List.flatMap_map]
    rfl

theorem children_of_here {p : Place} {s : Shape} (h : p.here = s) :
    p.children = s.children.map (⟨·, p.line⟩) := by
  subst h
  rfl

theorem mem_below_self (p : Place) : p ∈ p.below := by
  rw [below_eq]
  exact List.mem_cons_self

theorem mem_below_iff {p q : Place} : q ∈ p.below ↔ q = p ∨ ∃ c ∈ p.children, q ∈ c.below := by
  rw [below_eq, List.mem_cons, List.mem_flatMap]

@[elab_as_elim]
theorem induct {motive : Place → Prop} (step : ∀ p, (∀ c ∈ p.children, motive c) → motive p)
    (p : Place) : motive p := by
  obtain ⟨s, above⟩ := p
  induction s generalizing above with
  | token label named =>
    apply step
    intro c hc
    simp [children, Shape.children] at hc
  | node label children ih =>
    apply step
    intro c hc
    obtain ⟨s, hs, rfl⟩ := List.mem_map.1 hc
    exact ih s hs _

theorem line_injective {p q : Place} (h : p.line = q.line) : p = q := by
  obtain ⟨s, above⟩ := p
  obtain ⟨t, above'⟩ := q
  simp only [line, List.cons.injEq] at h
  rw [h.1, h.2]

theorem eq_of_suffixes {p q : Place} (h : p.line <:+ q.line) (h' : q.line <:+ p.line) : p = q :=
  line_injective (h.eq_of_length_le h'.length_le)

theorem line_child {p c : Place} (h : c ∈ p.children) : c.line = c.here :: p.line := by
  obtain ⟨s, _, rfl⟩ := List.mem_map.1 h
  rfl

@[simp] theorem descend_nil (p : Place) : p.descend [] = some p := rfl

theorem descend_cons {p q : Place} {i : Nat} {path : List Nat} :
    p.descend (i :: path) = some q ↔ ∃ c, p.children[i]? = some c ∧ c.descend path = some q := by
  rw [descend, Option.bind_eq_some_iff]

theorem descend_append {p q : Place} {path rest : List Nat} :
    p.descend (path ++ rest) = some q ↔
      ∃ m, p.descend path = some m ∧ m.descend rest = some q := by
  induction path generalizing p with
  | nil => simp
  | cons i path ih =>
    simp only [List.cons_append, descend_cons, ih]
    constructor
    · rintro ⟨c, hc, m, hm, hq⟩
      exact ⟨m, ⟨c, hc, hm⟩, hq⟩
    · rintro ⟨m, ⟨c, hc, hm⟩, hq⟩
      exact ⟨c, hc, m, hm, hq⟩

theorem mem_below_iff_descend {p q : Place} : q ∈ p.below ↔ ∃ path, p.descend path = some q := by
  constructor
  · intro h
    induction p using induct with
    | step p ih =>
      rcases mem_below_iff.1 h with rfl | ⟨c, hc, hq⟩
      · exact ⟨[], rfl⟩
      · obtain ⟨path, hpath⟩ := ih c hc hq
        obtain ⟨i, hi⟩ := List.getElem?_of_mem hc
        exact ⟨i :: path, descend_cons.2 ⟨c, hi, hpath⟩⟩
  · rintro ⟨path, hpath⟩
    induction path generalizing p with
    | nil =>
      cases hpath
      exact mem_below_self q
    | cons i path ih =>
      obtain ⟨c, hc, hq⟩ := descend_cons.1 hpath
      exact mem_below_iff.2 (Or.inr ⟨c, List.mem_of_getElem? hc, ih hq⟩)

theorem mem_below_of_descend {p q : Place} {path : List Nat} (h : p.descend path = some q) :
    q ∈ p.below :=
  mem_below_iff_descend.2 ⟨path, h⟩

theorem below_trans {p q r : Place} (hq : q ∈ p.below) (hr : r ∈ q.below) : r ∈ p.below := by
  obtain ⟨path, hpath⟩ := mem_below_iff_descend.1 hq
  obtain ⟨rest, hrest⟩ := mem_below_iff_descend.1 hr
  exact mem_below_iff_descend.2 ⟨path ++ rest, descend_append.2 ⟨q, hpath, hrest⟩⟩

theorem child_mem_below {p c : Place} (h : c ∈ p.children) : c ∈ p.below :=
  mem_below_iff.2 (Or.inr ⟨c, h, mem_below_self c⟩)

theorem mem_below_of_child {p c q : Place} (hc : c ∈ p.children) (hq : q ∈ c.below) :
    q ∈ p.below :=
  mem_below_iff.2 (Or.inr ⟨c, hc, hq⟩)

theorem line_of_descend {p q : Place} {path : List Nat} (h : p.descend path = some q) :
    ∃ front, front.length = path.length ∧ q.line = front ++ p.line := by
  induction path generalizing p with
  | nil =>
    cases h
    exact ⟨[], rfl, rfl⟩
  | cons i path ih =>
    obtain ⟨c, hc, hq⟩ := descend_cons.1 h
    obtain ⟨front, hlen, hline⟩ := ih hq
    refine ⟨front ++ [c.here], by simp [hlen], ?_⟩
    rw [hline, line_child (List.mem_of_getElem? hc), List.append_assoc]
    rfl

theorem length_line_of_descend {p q : Place} {path : List Nat} (h : p.descend path = some q) :
    q.line.length = path.length + p.line.length := by
  obtain ⟨front, hlen, hline⟩ := line_of_descend h
  rw [hline, List.length_append, hlen]

theorem descend_ancestor {p q m : Place} {path : List Nat} {front : List Shape}
    (h : p.descend path = some q) (hline : q.line = front ++ m.line)
    (hlen : front.length ≤ path.length) :
    p.descend (path.take (path.length - front.length)) = some m ∧
      m.descend (path.drop (path.length - front.length)) = some q := by
  rw [← List.take_append_drop (path.length - front.length) path] at h
  obtain ⟨n, hn, hq⟩ := descend_append.1 h
  obtain ⟨front', hlen', hline'⟩ := line_of_descend hq
  have hfront : front'.length = front.length := by
    rw [hlen', List.length_drop]
    omega
  have hnm : n = m := by
    apply line_injective
    exact (List.append_inj (hline'.symm.trans hline) hfront).2
  subst hnm
  exact ⟨hn, hq⟩

theorem lineage_eq (p : Place) : p.lineage = chain p.line := rfl

theorem mem_chain_iff {shapes : List Shape} {p : Place} :
    p ∈ chain shapes ↔ p.line <:+ shapes := by
  induction shapes with
  | nil => simp [chain, line]
  | cons s above ih =>
    rw [chain, List.mem_cons, ih, List.suffix_cons_iff]
    constructor
    · rintro (rfl | h)
      · exact Or.inl rfl
      · exact Or.inr h
    · rintro (h | h)
      · exact Or.inl (line_injective h)
      · exact Or.inr h

theorem isWithin_iff {p : Place} {id : Nat} :
    p.isWithin id = true ↔ ∃ q : Place, q.line <:+ p.line ∧ q.id = id := by
  rw [isWithin, lineage_eq, List.any_eq_true]
  constructor
  · rintro ⟨q, hq, hid⟩
    exact ⟨q, mem_chain_iff.1 hq, by simpa using hid⟩
  · rintro ⟨q, hq, hid⟩
    exact ⟨q, mem_chain_iff.2 hq, by simpa using hid⟩

theorem line_suffix_of_mem_below {p q : Place} (h : q ∈ p.below) : p.line <:+ q.line := by
  obtain ⟨path, hpath⟩ := mem_below_iff_descend.1 h
  obtain ⟨front, _, hline⟩ := line_of_descend hpath
  exact ⟨front, hline.symm⟩

theorem line_suffix_of_parent {p parent : Place} (h : p.parent? = some parent) :
    parent.line <:+ p.line := by
  obtain ⟨s, above⟩ := p
  cases above with
  | nil => simp [parent?] at h
  | cons u above =>
    simp only [parent?, Option.some.injEq] at h
    subst h
    exact List.suffix_cons s (u :: above)

theorem between_of_suffix {top p m : Place} (hp : p ∈ top.below) (hm : m.line <:+ p.line)
    (hlength : top.line.length ≤ m.line.length) : m ∈ top.below ∧ p ∈ m.below := by
  obtain ⟨path, hpath⟩ := mem_below_iff_descend.1 hp
  obtain ⟨front, hline⟩ := hm
  have hlen := length_line_of_descend hpath
  rw [← hline, List.length_append] at hlen
  obtain ⟨hm, hpm⟩ := descend_ancestor hpath hline.symm (by omega)
  exact ⟨mem_below_of_descend hm, mem_below_of_descend hpm⟩

theorem ancestor_mem_below {root p m : Place} (htop : root.above = []) (hp : p ∈ root.below)
    (hm : m.line <:+ p.line) : m ∈ root.below ∧ p ∈ m.below := by
  refine between_of_suffix hp hm ?_
  rw [line, line, htop, List.length_singleton, List.length_cons]
  omega

theorem below_antisymm {p q : Place} (hq : q ∈ p.below) (hp : p ∈ q.below) : p = q := by
  exact eq_of_suffixes (line_suffix_of_mem_below hq) (line_suffix_of_mem_below hp)

theorem length_lt_of_mem_below {p q : Place} (hq : q ∈ p.below) (hne : q ≠ p) :
    p.line.length < q.line.length := by
  have hsuffix := line_suffix_of_mem_below hq
  by_contra hle
  exact hne (line_injective (hsuffix.eq_of_length_le (by omega))).symm

theorem not_mem_below_child {p c : Place} (hc : c ∈ p.children) : p ∉ c.below := by
  intro hp
  have hlength := (line_suffix_of_mem_below hp).length_le
  rw [line_child hc, List.length_cons] at hlength
  omega

theorem isWithin_of_mem_below {p q : Place} (h : q ∈ p.below) : q.isWithin p.id = true :=
  isWithin_iff.2 ⟨p, line_suffix_of_mem_below h, rfl⟩

end Place

end IfCollapse.Java
