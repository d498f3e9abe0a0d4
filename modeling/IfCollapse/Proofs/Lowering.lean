import IfCollapse.Proofs.Places

/-! Lowering to shapes at one go, and what it keeps: elements are numbered in a row, each before its
parts; the text of an element is the source text under its span; and spans stay nested and in
order. -/

namespace IfCollapse.Java

mutual

/-- Numbers and shapes a concrete tree, starting with the number `next`. -/
def lower (source : List Char) (tree : Cst) (field : Option String) (next : Nat) :
    Except Fault (Shape × Nat) :=
  match tree with
  | .node row _ children => do
    let text ← slice source row.span
    let label : Label := ⟨next, row.kind, field, row.span, text⟩
    if children.isEmpty then
      if row.named && !(Kind.ofName row.kind).isFragment then
        let inner : Label := ⟨next + 1, row.kind, none, row.span, text⟩
        return (.node label [.token inner true], next + 2)
      else
        return (.token label row.named, next + 1)
    else
      let (shapes, after) ← lowerAll source children (next + 1)
      return (.node label shapes, after)

def lowerAll (source : List Char) (trees : List Cst) (next : Nat) :
    Except Fault (List Shape × Nat) :=
  match trees with
  | [] => .ok ([], next)
  | tree :: trees =>
    if tree.row.extra then lowerAll source trees next
    else do
      let (shape, middle) ← lower source tree tree.row.field next
      let (shapes, after) ← lowerAll source trees middle
      return (shape :: shapes, after)

end

mutual

def comments : Cst → List Span
  | .node _ _ children => commentsAll children

def commentsAll : List Cst → List Span
  | [] => []
  | tree :: trees =>
    (if tree.row.extra then
      if "comment".toList.isSuffixOf tree.kind.toList then [tree.span] else []
    else comments tree) ++ commentsAll trees

end

def Row.isComment (row : Row) : Bool :=
  row.extra && "comment".toList.isSuffixOf row.kind.toList

theorem commentsAll_cons (t : Cst) (trees : List Cst) : commentsAll (t :: trees) =
    (if t.row.extra then if t.row.isComment then [t.span] else [] else comments t) ++
      commentsAll trees := by
  rw [commentsAll]
  cases hextra : t.row.extra with
  | false => rfl
  | true =>
    have hkind : t.row.isComment = "comment".toList.isSuffixOf t.kind.toList := by
      rw [Row.isComment, hextra, Bool.true_and]
      rfl
    rw [hkind]

mutual

/-- No node is empty, and the parts of a node lie inside it, in order and without overlap. -/
def Cst.WellFormed : Cst → Prop
  | .node row _ children =>
    row.span.start < row.span.stop ∧ Cst.Consecutive row.span.start row.span.stop children

def Cst.Consecutive (lo hi : Nat) : List Cst → Prop
  | [] => True
  | t :: trees =>
    lo ≤ t.span.start ∧ t.span.stop ≤ hi ∧ t.WellFormed ∧ Cst.Consecutive t.span.stop hi trees

end

mutual

def Cst.decideWellFormed : (t : Cst) → Decidable t.WellFormed
  | .node row _ children =>
    have := Cst.decideConsecutive row.span.start row.span.stop children
    inferInstanceAs (Decidable (_ ∧ _))

def Cst.decideConsecutive (lo hi : Nat) :
    (trees : List Cst) → Decidable (Cst.Consecutive lo hi trees)
  | [] => inferInstanceAs (Decidable True)
  | t :: trees =>
    have := t.decideWellFormed
    have := Cst.decideConsecutive t.span.stop hi trees
    inferInstanceAs (Decidable (_ ∧ _ ∧ _ ∧ _))

end

instance (t : Cst) : Decidable t.WellFormed := t.decideWellFormed

@[elab_as_elim]
theorem Cst.induct {motive : Cst → Prop}
    (node : ∀ row index children, (∀ c ∈ children, motive c) → motive (.node row index children)) :
    ∀ t, motive t
  | .node row index children => node row index children fun c _ => Cst.induct node c

inductive Cst.Reaches : Cst → Cst → Prop
  | here (t : Cst) : Reaches t t
  | part {t c u : Cst} : c ∈ t.children → c.row.extra = false → Reaches c u → Reaches t u

/-- A named node of `length` bytes, for writing trees down. -/
def Cst.part (kind : String) (start length : Nat) (field : Option String)
    (children : List Cst) : Cst :=
  .node ⟨0, kind, true, false, false, ⟨start, start + length, Nat.le_add_right _ _⟩, field⟩ 0
    children

/-- A token whose name is its text. -/
def Cst.mark (text : String) (start : Nat) : Cst :=
  .node ⟨0, text, false, false, false, ⟨start, start + text.length, Nat.le_add_right _ _⟩, none⟩ 0
    []

namespace Shape

mutual

def size : Shape → Nat
  | .token _ _ => 1
  | .node _ children => sizeAll children + 1

def sizeAll : List Shape → Nat
  | [] => 0
  | s :: shapes => s.size + sizeAll shapes

end

mutual

/-- The elements are numbered in a row from `first` on, each before its parts. -/
def Numbered : Nat → Shape → Prop
  | first, .token label _ => label.id = first
  | first, .node label children => label.id = first ∧ NumberedAll (first + 1) children

def NumberedAll : Nat → List Shape → Prop
  | _, [] => True
  | first, s :: shapes => s.Numbered first ∧ NumberedAll (first + s.size) shapes

end

mutual

def Ordered : Shape → Prop
  | .token label _ => label.span.start < label.span.stop
  | .node label children =>
    label.span.start < label.span.stop ∧ OrderedFrom label.span.start label.span.stop children

def OrderedFrom (lo hi : Nat) : List Shape → Prop
  | [] => True
  | s :: shapes =>
    lo ≤ s.span.start ∧ s.span.stop ≤ hi ∧ s.Ordered ∧ OrderedFrom s.span.stop hi shapes

end

end Shape

section Lower

variable {source : List Char}

theorem lower_cases {row : Row} {index : Nat} {children : List Cst} {field : Option String}
    {next after : Nat} {s : Shape}
    (h : lower source (.node row index children) field next = .ok (s, after)) :
    ∃ text, slice source row.span = .ok text ∧
      ((children = [] ∧ row.named = true ∧ (Kind.ofName row.kind).isFragment = false ∧
          s = .node ⟨next, row.kind, field, row.span, text⟩
            [.token ⟨next + 1, row.kind, none, row.span, text⟩ true] ∧
          after = next + 2) ∨
        (children = [] ∧ (row.named = false ∨ (Kind.ofName row.kind).isFragment = true) ∧
          s = .token ⟨next, row.kind, field, row.span, text⟩ row.named ∧
          after = next + 1) ∨
        (children ≠ [] ∧ ∃ shapes, lowerAll source children (next + 1) = .ok (shapes, after) ∧
          s = .node ⟨next, row.kind, field, row.span, text⟩ shapes)) := by
  rw [lower] at h
  cases ht : slice source row.span with
  | error fault => simp [ht, bind, Except.bind] at h
  | ok text =>
    refine ⟨text, rfl, ?_⟩
    simp only [ht, bind, Except.bind, pure, Except.pure] at h
    split at h
    · rename_i hc
      have hnil : children = [] := by simpa using hc
      split at h
      · rename_i hn
        simp only [Bool.and_eq_true, Bool.not_eq_true'] at hn
        simp only [Except.ok.injEq, Prod.mk.injEq] at h
        exact Or.inl ⟨hnil, hn.1, hn.2, h.1.symm, h.2.symm⟩
      · rename_i hn
        have hn' : row.named = false ∨ (Kind.ofName row.kind).isFragment = true := by
          cases hr : row.named <;> simp_all
        simp only [Except.ok.injEq, Prod.mk.injEq] at h
        exact Or.inr (Or.inl ⟨hnil, hn', h.1.symm, h.2.symm⟩)
    · rename_i hc
      have hne : children ≠ [] := by simpa using hc
      split at h
      · simp at h
      · rename_i pair hp
        simp only [Except.ok.injEq, Prod.mk.injEq] at h
        obtain ⟨shapes, last⟩ := pair
        obtain ⟨hs, rfl⟩ := h
        exact Or.inr (Or.inr ⟨hne, shapes, hp, hs.symm⟩)

theorem lowerAll_cases {t : Cst} {trees : List Cst} {next after : Nat} {shapes : List Shape}
    (h : lowerAll source (t :: trees) next = .ok (shapes, after)) :
    (t.row.extra = true ∧ lowerAll source trees next = .ok (shapes, after)) ∨
      (t.row.extra = false ∧ ∃ s middle rest, lower source t t.row.field next = .ok (s, middle) ∧
        lowerAll source trees middle = .ok (rest, after) ∧ shapes = s :: rest) := by
  rw [lowerAll] at h
  split at h
  · rename_i he
    exact Or.inl ⟨he, h⟩
  · rename_i he
    refine Or.inr ⟨by simpa using he, ?_⟩
    cases hl : lower source t t.row.field next with
    | error fault => simp [hl, bind, Except.bind] at h
    | ok pair =>
      obtain ⟨s, middle⟩ := pair
      simp only [hl, bind, Except.bind, pure, Except.pure] at h
      cases hr : lowerAll source trees middle with
      | error fault => simp [hr] at h
      | ok rest =>
        obtain ⟨rest, last⟩ := rest
        simp only [hr, Except.ok.injEq, Prod.mk.injEq] at h
        obtain ⟨hs, rfl⟩ := h
        exact ⟨s, middle, rest, rfl, hr, hs.symm⟩

mutual

theorem numbered_of_lower : ∀ (t : Cst) {field : Option String} {next after : Nat} {s : Shape},
    lower source t field next = .ok (s, after) → s.Numbered next ∧ after = next + s.size
  | .node row index children, field, next, after, s, h => by
    obtain ⟨text, _, hs⟩ := lower_cases h
    rcases hs with ⟨_, _, _, rfl, rfl⟩ | ⟨_, _, rfl, rfl⟩ | ⟨_, shapes, hall, rfl⟩
    · simp [Shape.Numbered, Shape.NumberedAll, Shape.size, Shape.sizeAll]
    · simp [Shape.Numbered, Shape.size]
    · obtain ⟨hn, hafter⟩ := numbered_of_lowerAll children hall
      refine ⟨⟨rfl, hn⟩, ?_⟩
      rw [hafter, Shape.size]
      omega

theorem numbered_of_lowerAll : ∀ (trees : List Cst) {next after : Nat} {shapes : List Shape},
    lowerAll source trees next = .ok (shapes, after) →
      Shape.NumberedAll next shapes ∧ after = next + Shape.sizeAll shapes
  | [], next, after, shapes, h => by
    simp only [lowerAll, Except.ok.injEq, Prod.mk.injEq] at h
    obtain ⟨rfl, rfl⟩ := h
    simp [Shape.NumberedAll, Shape.sizeAll]
  | t :: trees, next, after, shapes, h => by
    rcases lowerAll_cases h with ⟨_, hrest⟩ | ⟨_, s, middle, rest, hs, hrest, rfl⟩
    · exact numbered_of_lowerAll trees hrest
    · obtain ⟨hn, rfl⟩ := numbered_of_lower t hs
      obtain ⟨hns, rfl⟩ := numbered_of_lowerAll trees hrest
      refine ⟨⟨hn, hns⟩, ?_⟩
      rw [Shape.sizeAll]
      omega

end

theorem name_of_lower {t : Cst} {field : Option String} {next after : Nat} {s : Shape}
    (h : lower source t field next = .ok (s, after)) : s.name = t.kind := by
  obtain ⟨row, index, children⟩ := t
  obtain ⟨text, _, hs⟩ := lower_cases h
  rcases hs with ⟨_, _, _, rfl, _⟩ | ⟨_, _, rfl, _⟩ | ⟨_, shapes, _, rfl⟩ <;> rfl

theorem span_of_lower {t : Cst} {field : Option String} {next after : Nat} {s : Shape}
    (h : lower source t field next = .ok (s, after)) : s.span = t.span := by
  obtain ⟨row, index, children⟩ := t
  obtain ⟨text, _, hs⟩ := lower_cases h
  rcases hs with ⟨_, _, _, rfl, _⟩ | ⟨_, _, rfl, _⟩ | ⟨_, shapes, _, rfl⟩ <;> rfl

theorem Shape.OrderedFrom.mono {lo lo' hi : Nat} {shapes : List Shape} (hlo : lo ≤ lo')
    (h : Shape.OrderedFrom lo' hi shapes) : Shape.OrderedFrom lo hi shapes := by
  cases shapes with
  | nil => trivial
  | cons s shapes => exact ⟨Nat.le_trans hlo h.1, h.2⟩

mutual

theorem ordered_of_lower : ∀ (t : Cst) {field : Option String} {next after : Nat} {s : Shape},
    t.WellFormed → lower source t field next = .ok (s, after) → s.Ordered
  | .node row index children, field, next, after, s, hw, h => by
    obtain ⟨hne, hparts⟩ := hw
    obtain ⟨text, _, hs⟩ := lower_cases h
    rcases hs with ⟨_, _, _, rfl, _⟩ | ⟨_, _, rfl, _⟩ | ⟨_, shapes, hall, rfl⟩
    · exact ⟨hne, Nat.le_refl _, Nat.le_refl _, hne, trivial⟩
    · exact hne
    · exact ⟨hne, ordered_of_lowerAll children hparts hall⟩

theorem ordered_of_lowerAll : ∀ (trees : List Cst) {lo hi next after : Nat} {shapes : List Shape},
    Cst.Consecutive lo hi trees → lowerAll source trees next = .ok (shapes, after) →
      Shape.OrderedFrom lo hi shapes
  | [], lo, hi, next, after, shapes, _, h => by
    simp only [lowerAll, Except.ok.injEq, Prod.mk.injEq] at h
    obtain ⟨rfl, _⟩ := h
    trivial
  | t :: trees, lo, hi, next, after, shapes, hw, h => by
    obtain ⟨hlo, hhi, ht, htrees⟩ := hw
    rcases lowerAll_cases h with ⟨_, hrest⟩ | ⟨_, s, middle, rest, hs, hrest, rfl⟩
    · have hstop := Nat.le_trans hlo t.span.ordered
      exact Shape.OrderedFrom.mono hstop (ordered_of_lowerAll trees htrees hrest)
    · rw [← span_of_lower hs] at hlo hhi htrees
      exact ⟨hlo, hhi, ordered_of_lower t ht hs, ordered_of_lowerAll trees htrees hrest⟩

end

mutual

theorem slice_of_lower : ∀ (t : Cst) {field : Option String} {next after : Nat} {s : Shape}
    (above : List Shape), lower source t field next = .ok (s, after) →
      ∀ p ∈ placesFrom above s, slice source p.span = .ok p.text
  | .node row index children, field, next, after, s, above, h => by
    obtain ⟨text, htext, hs⟩ := lower_cases h
    rcases hs with ⟨_, _, _, rfl, _⟩ | ⟨_, _, rfl, _⟩ | ⟨_, shapes, hall, rfl⟩
    · intro p hp
      simp only [placesFrom, placesFromAll, List.append_nil, List.mem_cons, List.not_mem_nil,
        or_false] at hp
      rcases hp with rfl | rfl <;> exact htext
    · intro p hp
      simp only [placesFrom, List.mem_cons, List.not_mem_nil, or_false] at hp
      subst hp
      exact htext
    · intro p hp
      rw [placesFrom, List.mem_cons] at hp
      rcases hp with rfl | hp
      · exact htext
      · exact slice_of_lowerAll children _ hall p hp

theorem slice_of_lowerAll : ∀ (trees : List Cst) {next after : Nat} {shapes : List Shape}
    (above : List Shape), lowerAll source trees next = .ok (shapes, after) →
      ∀ p ∈ placesFromAll above shapes, slice source p.span = .ok p.text
  | [], next, after, shapes, above, h => by
    simp only [lowerAll, Except.ok.injEq, Prod.mk.injEq] at h
    obtain ⟨rfl, _⟩ := h
    simp [placesFromAll]
  | t :: trees, next, after, shapes, above, h => by
    rcases lowerAll_cases h with ⟨_, hrest⟩ | ⟨_, s, middle, rest, hs, hrest, rfl⟩
    · exact slice_of_lowerAll trees above hrest
    · intro p hp
      rw [placesFromAll, List.mem_append] at hp
      rcases hp with hp | hp
      · exact slice_of_lower t above hs p hp
      · exact slice_of_lowerAll trees above hrest p hp

end

end Lower

section Numbers

theorem Shape.size_pos (s : Shape) : 0 < s.size := by
  cases s with
  | token label named => simp [Shape.size]
  | node label children => simp [Shape.size]

theorem Shape.Numbered.id_eq {s : Shape} {n : Nat} (h : s.Numbered n) : s.id = n := by
  cases s with
  | token label named => exact h
  | node label children => exact h.1

theorem Shape.NumberedAll.of_mem {first : Nat} {shapes : List Shape} {s : Shape}
    (h : Shape.NumberedAll first shapes) (hs : s ∈ shapes) : first ≤ s.id ∧ s.Numbered s.id := by
  induction shapes generalizing first with
  | nil => simp at hs
  | cons t shapes ih =>
    cases List.mem_cons.1 hs with
    | inl heq =>
      have hid := h.1.id_eq
      rw [heq, hid]
      exact ⟨Nat.le_refl first, h.1⟩
    | inr hmem =>
      obtain ⟨hle, hnumbered⟩ := ih h.2 hmem
      exact ⟨by omega, hnumbered⟩

mutual

theorem ids_placesFrom : ∀ (s : Shape) {first : Nat} (above : List Shape), s.Numbered first →
    (placesFrom above s).map Place.id = List.range' first s.size
  | .token label named, first, above, h => by
    simp only [Shape.Numbered] at h
    subst h
    rfl
  | .node label children, first, above, h => by
    obtain ⟨rfl, hparts⟩ := h
    rw [placesFrom, List.map_cons, ids_placesFromAll children _ hparts, Shape.size,
      List.range'_succ]
    rfl

theorem ids_placesFromAll : ∀ (shapes : List Shape) {first : Nat} (above : List Shape),
    Shape.NumberedAll first shapes →
      (placesFromAll above shapes).map Place.id = List.range' first (Shape.sizeAll shapes)
  | [], first, above, _ => rfl
  | s :: shapes, first, above, h => by
    obtain ⟨hs, hshapes⟩ := h
    rw [placesFromAll, List.map_append, ids_placesFrom s above hs,
      ids_placesFromAll shapes above hshapes, Shape.sizeAll, List.range'_append_1]

end

end Numbers

mutual

/-- The places from `p` down, where `t` is lowered to, each with the number of the row that it stands
for. The token inside a named leaf stands for none. -/
def tagged : Cst → Place → List (Place × Option Nat)
  | .node _ index children, p =>
    (p, some index) ::
      if children.isEmpty then p.children.map fun c => (c, none)
      else taggedAll children p.children

def taggedAll : List Cst → List Place → List (Place × Option Nat)
  | [], _ => []
  | t :: trees, places =>
    if t.row.extra then taggedAll trees places
    else
      match places with
      | [] => []
      | p :: places => tagged t p ++ taggedAll trees places

end

theorem tagged_leaf {row : Row} {index : Nat} {p : Place} :
    tagged (.node row index []) p = (p, some index) :: p.children.map fun c => (c, none) := by
  rw [tagged]
  rfl

theorem tagged_node {row : Row} {index : Nat} {children : List Cst} {p : Place}
    (h : children ≠ []) :
    tagged (.node row index children) p = (p, some index) :: taggedAll children p.children := by
  rw [tagged, if_neg (by simpa using h)]

theorem taggedAll_of_extra {t : Cst} {trees : List Cst} {places : List Place}
    (h : t.row.extra = true) : taggedAll (t :: trees) places = taggedAll trees places := by
  cases places <;> rw [taggedAll, if_pos h]

theorem taggedAll_cons {t : Cst} {trees : List Cst} {p : Place} {places : List Place}
    (h : t.row.extra = false) :
    taggedAll (t :: trees) (p :: places) = tagged t p ++ taggedAll trees places := by
  rw [taggedAll, h]
  rfl

section Reached

variable {source : List Char}

theorem exists_of_mem_lowerAll (above : List Shape) {c : Cst} {trees : List Cst} {next after : Nat}
    {shapes : List Shape} (h : lowerAll source trees next = .ok (shapes, after)) (hc : c ∈ trees)
    (hextra : c.row.extra = false) :
    ∃ s ∈ shapes, tagged c ⟨s, above⟩ ⊆ taggedAll trees (shapes.map (⟨·, above⟩)) ∧
      ∃ n m, lower source c c.row.field n = .ok (s, m) := by
  induction trees generalizing next shapes with
  | nil => simp at hc
  | cons t trees ih =>
    rcases lowerAll_cases h with ⟨hskip, hrest⟩ | ⟨hkept, s, middle, rest, hs, hrest, rfl⟩
    · rw [taggedAll_of_extra hskip]
      cases List.mem_cons.1 hc with
      | inl heq => simp [heq, hskip] at hextra
      | inr hmem => exact ih hrest hmem
    · rw [List.map_cons, taggedAll_cons hkept]
      cases List.mem_cons.1 hc with
      | inl heq =>
        subst heq
        exact ⟨s, List.mem_cons_self, List.subset_append_left _ _, next, middle, hs⟩
      | inr hmem =>
        obtain ⟨u, hu, htags, hlower⟩ := ih hrest hmem
        exact ⟨u, List.mem_cons_of_mem s hu, List.subset_append_of_subset_right _ htags, hlower⟩

theorem exists_child_of_lower {t c : Cst} {p : Place} {field : Option String} {next after : Nat}
    (h : lower source t field next = .ok (p.here, after)) (hc : c ∈ t.children)
    (hextra : c.row.extra = false) :
    ∃ q ∈ p.children, tagged c q ⊆ tagged t p ∧
      ∃ n m, lower source c c.row.field n = .ok (q.here, m) := by
  obtain ⟨row, index, children⟩ := t
  change c ∈ children at hc
  obtain ⟨text, _, hs⟩ := lower_cases h
  rcases hs with ⟨rfl, _⟩ | ⟨rfl, _⟩ | ⟨hne, shapes, hall, hplace⟩
  · simp at hc
  · simp at hc
  · obtain ⟨s, hs, htags, hlower⟩ := exists_of_mem_lowerAll p.line hall hc hextra
    have hchildren : p.children = shapes.map (⟨·, p.line⟩) := Place.children_of_here hplace
    refine ⟨⟨s, p.line⟩, hchildren ▸ List.mem_map_of_mem hs, ?_, hlower⟩
    rw [tagged_node hne, hchildren]
    exact List.subset_cons_of_subset _ htags

theorem exists_place_of_reaches {t u : Cst} (h : t.Reaches u) {p : Place}
    {field : Option String} {next after : Nat}
    (hlower : lower source t field next = .ok (p.here, after)) :
    ∃ q ∈ p.below, tagged u q ⊆ tagged t p ∧
      ∃ role n m, lower source u role n = .ok (q.here, m) := by
  induction h generalizing p field next after with
  | here t => exact ⟨p, p.mem_below_self, List.Subset.refl _, field, next, after, hlower⟩
  | part hc hextra _ ih =>
    obtain ⟨c, hchild, htags, n, m, hpart⟩ := exists_child_of_lower hlower hc hextra
    obtain ⟨q, hq, htags', hfound⟩ := ih hpart
    exact ⟨q, Place.mem_below_of_child hchild hq, List.Subset.trans htags' htags, hfound⟩

mutual

theorem exists_lower_of_readable : ∀ (t : Cst) (field : Option String) (next : Nat),
    (∀ u, t.Reaches u → ∃ content, u.text source = .ok content) →
      ∃ result, lower source t field next = .ok result
  | .node row index children, field, next, h => by
    have hslice : ∃ content, slice source row.span = .ok content := h _ (.here _)
    obtain ⟨content, hcontent⟩ := hslice
    obtain ⟨⟨shapes, after⟩, hshapes⟩ := exists_lowerAll_of_readable children (next + 1)
      fun t ht hextra u hu => h u (.part ht hextra hu)
    simp only [lower, hcontent, bind, Except.bind, pure, Except.pure]
    split
    · split <;> exact ⟨_, rfl⟩
    · simp only [hshapes]
      exact ⟨_, rfl⟩

theorem exists_lowerAll_of_readable : ∀ (trees : List Cst) (next : Nat),
    (∀ t ∈ trees, t.row.extra = false → ∀ u, t.Reaches u → ∃ content, u.text source = .ok content) →
      ∃ result, lowerAll source trees next = .ok result
  | [], next, _ => ⟨_, rfl⟩
  | t :: trees, next, h => by
    have hrest := fun u hu => h u (List.mem_cons_of_mem t hu)
    rw [lowerAll]
    split
    · exact exists_lowerAll_of_readable trees next hrest
    · rename_i hextra
      obtain ⟨⟨shape, middle⟩, hshape⟩ := exists_lower_of_readable t t.row.field next
        (h t List.mem_cons_self (by simpa using hextra))
      obtain ⟨⟨shapes, after⟩, hshapes⟩ := exists_lowerAll_of_readable trees middle hrest
      simp only [hshape, hshapes, bind, Except.bind, pure, Except.pure]
      exact ⟨_, rfl⟩

end

end Reached

end IfCollapse.Java
