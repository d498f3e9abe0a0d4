import IfCollapse.Proofs.Arena
import IfCollapse.Proofs.RowBlocks

/-! What lowering makes of rows. An element is found for every row that can be reached from the root
without passing an extra, has the name and the span of the row, and lies within another one if its row
does; and the comments are those that the rows show outside of other extras. -/

namespace IfCollapse.Java

section Tags

variable {text : List Char}

/-- An element with a row comes from the node of the row; one without is the token inside a named
leaf. -/
def Stands (text : List Char) (t : Cst) (p : Place) : Place × Option Nat → Prop
  | (q, some k) => ∃ u, t.Reaches u ∧ u.index = k ∧ tagged u q ⊆ tagged t p ∧
      ∃ role n m, lower text u role n = .ok (q.here, m)
  | (q, none) => q.isToken = true ∧ ∃ w j, (w, some j) ∈ tagged t p ∧ w.children = [q]

theorem Stands.part {t c : Cst} {p q : Place} {tag : Place × Option Nat} (hc : c ∈ t.children)
    (hextra : c.row.extra = false) (htags : tagged c q ⊆ tagged t p) (h : Stands text c q tag) :
    Stands text t p tag := by
  obtain ⟨r, row⟩ := tag
  cases row with
  | none =>
    obtain ⟨htoken, w, j, hw, hchildren⟩ := h
    exact ⟨htoken, w, j, htags hw, hchildren⟩
  | some k =>
    obtain ⟨u, hreach, hindex, htags', hlower⟩ := h
    exact ⟨u, .part hc hextra hreach, hindex, List.Subset.trans htags' htags, hlower⟩

theorem exists_of_mem_taggedAll {trees : List Cst} {shapes above : List Shape} {next after : Nat}
    {tag : Place × Option Nat} (h : lowerAll text trees next = .ok (shapes, after))
    (htag : tag ∈ taggedAll trees (shapes.map (⟨·, above⟩))) :
    ∃ t ∈ trees, t.row.extra = false ∧ ∃ q, tag ∈ tagged t q ∧
      tagged t q ⊆ taggedAll trees (shapes.map (⟨·, above⟩)) ∧
      ∃ n m, lower text t t.row.field n = .ok (q.here, m) := by
  induction trees generalizing next shapes with
  | nil => simp [taggedAll] at htag
  | cons t trees ih =>
    rcases lowerAll_cases h with ⟨hskip, hrest⟩ | ⟨hkept, s, middle, rest, hs, hrest, rfl⟩
    · rw [taggedAll_of_extra hskip] at htag ⊢
      obtain ⟨u, hu, hfound⟩ := ih hrest htag
      exact ⟨u, List.mem_cons_of_mem t hu, hfound⟩
    · rw [List.map_cons, taggedAll_cons hkept] at htag ⊢
      cases List.mem_append.1 htag with
      | inl hfirst =>
        exact ⟨t, List.mem_cons_self, hkept, ⟨s, above⟩, hfirst, List.subset_append_left _ _,
          next, middle, hs⟩
      | inr hlater =>
        obtain ⟨u, hu, hextra, q, hmem, htags, hlower⟩ := ih hrest hlater
        exact ⟨u, List.mem_cons_of_mem t hu, hextra, q, hmem,
          List.subset_append_of_subset_right _ htags, hlower⟩

theorem stands_of_tag : ∀ (t : Cst) {p : Place} {field : Option String} {next after : Nat},
    lower text t field next = .ok (p.here, after) → ∀ tag ∈ tagged t p, Stands text t p tag := by
  intro t
  induction t using Cst.induct with
  | node row index children ih =>
    intro p field next after h tag htag
    have hself : Stands text (.node row index children) p (p, some index) :=
      ⟨_, .here _, rfl, List.Subset.refl _, field, next, after, h⟩
    obtain ⟨content, _, hs⟩ := lower_cases h
    rcases hs with ⟨rfl, _, _, hplace, _⟩ | ⟨rfl, _, hplace, _⟩ | ⟨hne, shapes, hall, hplace⟩
    · rw [tagged_leaf] at htag
      cases List.mem_cons.1 htag with
      | inl heq => exact heq ▸ hself
      | inr hinner =>
        obtain ⟨q, hq, rfl⟩ := List.mem_map.1 hinner
        have hchildren : p.children = [⟨.token _ true, p.line⟩] := Place.children_of_here hplace
        rw [hchildren, List.mem_singleton] at hq
        refine ⟨hq ▸ rfl, p, index, ?_, hq ▸ hchildren⟩
        rw [tagged_leaf]
        exact List.mem_cons_self
    · have hchildren : p.children = [] := Place.children_of_here hplace
      rw [tagged_leaf, hchildren, List.map_nil, List.mem_singleton] at htag
      exact htag ▸ hself
    · have hchildren : p.children = shapes.map (⟨·, p.line⟩) := Place.children_of_here hplace
      have htags : tagged (.node row index children) p =
          (p, some index) :: taggedAll children p.children := tagged_node hne
      rw [htags] at htag
      rw [hchildren] at htags htag
      cases List.mem_cons.1 htag with
      | inl heq => exact heq ▸ hself
      | inr hmem =>
        obtain ⟨c, hc, hextra, q, hin, hsub, n, m, hlower⟩ := exists_of_mem_taggedAll hall hmem
        refine (ih c hc hlower tag hin).part hc hextra ?_
        rw [htags]
        exact List.subset_cons_of_subset _ hsub

theorem row_unique {t : Cst} {s : Shape} {after : Nat} {q : Place} {row other : Option Nat}
    (h : lower text t none 0 = .ok (s, after)) (hrow : (q, row) ∈ tagged t ⟨s, []⟩)
    (hother : (q, other) ∈ tagged t ⟨s, []⟩) : row = other := by
  have hdistinct : Place.Distinct ⟨s, []⟩ :=
    Place.distinct_of_numbered (numbered_of_lower t h).1
  have hnodup : ((tagged t ⟨s, []⟩).map (·.1)).Nodup := by
    rw [map_fst_tagged t (p := ⟨s, []⟩) h]
    exact hdistinct.of_map
  exact (Prod.mk.inj (List.inj_on_of_nodup_map hnodup hrow hother rfl)).2

end Tags

section Comments

/-- The spans of the comments below row `i` that lie in no other extra, in the order of the rows. -/
def looseComments (rows : List Row) (i : Nat) : List Span :=
  (rows.zipIdx.filter fun (row, j) => row.isComment && decide (Exposed rows i j)).map (·.1.span)

def Hangs (trees : List Cst) (u : Cst) : Prop :=
  u ∈ trees ∨ ∃ t ∈ trees, t.row.extra = false ∧ ∃ c, t.Reaches c ∧ u ∈ c.children

theorem hangs_cons {t u : Cst} {trees : List Cst} : Hangs (t :: trees) u ↔
    u = t ∨ (t.row.extra = false ∧ ∃ c, t.Reaches c ∧ u ∈ c.children) ∨ Hangs trees u := by
  simp only [Hangs, List.mem_cons, exists_eq_or_imp]
  exact or_or_or_comm.trans or_assoc

theorem hangs_children_iff {t u : Cst} :
    Hangs t.children u ↔ ∃ c, t.Reaches c ∧ u ∈ c.children := by
  constructor
  · intro h
    cases h with
    | inl hchild => exact ⟨t, .here t, hchild⟩
    | inr hdeep =>
      obtain ⟨d, hd, hextra, c, hreach, hchild⟩ := hdeep
      exact ⟨c, .part hd hextra hreach, hchild⟩
  · intro h
    obtain ⟨c, hreach, hchild⟩ := h
    cases hreach with
    | here => exact Or.inl hchild
    | part hd hextra hreach => exact Or.inr ⟨_, hd, hextra, c, hreach, hchild⟩

mutual

theorem exists_comments : ∀ t : Cst, ∃ found : List Cst, comments t = found.map Cst.span ∧
    found.Sublist t.preorder ∧
    ∀ u, u ∈ found ↔ u.row.isComment = true ∧ ∃ c, t.Reaches c ∧ u ∈ c.children
  | .node row index children => by
    obtain ⟨found, hspans, hsub, hmem⟩ := exists_commentsAll children
    refine ⟨found, hspans, hsub.cons _, ?_⟩
    intro u
    rw [hmem, ← hangs_children_iff]
    rfl

theorem exists_commentsAll : ∀ trees : List Cst, ∃ found : List Cst,
    commentsAll trees = found.map Cst.span ∧ found.Sublist (Cst.preorderAll trees) ∧
    ∀ u, u ∈ found ↔ u.row.isComment = true ∧ Hangs trees u
  | [] => ⟨[], rfl, List.Sublist.refl _, by simp [Hangs]⟩
  | t :: trees => by
    obtain ⟨rest, hrest, hsub, hmem⟩ := exists_commentsAll trees
    rw [commentsAll_cons, hrest]
    simp only [hangs_cons]
    cases hextra : t.row.extra with
    | false =>
      have hplain : t.row.isComment = false := by rw [Row.isComment, hextra, Bool.false_and]
      obtain ⟨own, hown, hsub', hmem'⟩ := exists_comments t
      refine ⟨own ++ rest, by simp [hown], hsub'.append hsub, ?_⟩
      intro u
      rw [List.mem_append, hmem, hmem']
      grind
    | true =>
      cases hcomment : t.row.isComment with
      | false =>
        refine ⟨rest, by simp, hsub.trans (List.sublist_append_right _ _), ?_⟩
        intro u
        rw [hmem]
        grind
      | true =>
        refine ⟨t :: rest, by simp, ?_, ?_⟩
        · rw [Cst.preorderAll, t.preorder_eq]
          exact (hsub.trans (List.sublist_append_right _ _)).cons_cons t
        · intro u
          rw [List.mem_cons, hmem]
          grind

end

theorem eq_filter_of_sublist {α : Type} {found all : List α} {p : α → Bool}
    (h : found.Sublist all) (hnodup : all.Nodup) (hp : ∀ x ∈ all, x ∈ found ↔ p x = true) :
    found = all.filter p := by
  induction h with
  | slnil => rfl
  | cons a h ih =>
    obtain ⟨hfresh, hnodup⟩ := List.nodup_cons.1 hnodup
    have ha : p a = false := by
      cases hpa : p a with
      | false => rfl
      | true => exact absurd (h.subset ((hp a List.mem_cons_self).2 hpa)) hfresh
    rw [List.filter_cons, ha]
    exact ih hnodup fun x hx => hp x (List.mem_cons_of_mem a hx)
  | cons_cons a h ih =>
    obtain ⟨hfresh, hnodup⟩ := List.nodup_cons.1 hnodup
    rw [List.filter_cons, (hp a List.mem_cons_self).1 List.mem_cons_self, if_pos rfl]
    congr 1
    apply ih hnodup
    intro x hx
    have hne : x ≠ a := fun heq => hfresh (heq ▸ hx)
    rw [← hp x (List.mem_cons_of_mem a hx), List.mem_cons]
    exact ⟨Or.inr, fun hmem => hmem.resolve_left hne⟩

theorem comments_eq_loose {rows : List Row} {root : Cst} {i : Nat}
    (h : (Cst.nodes rows 0)[i]? = some root) : comments root = looseComments rows i := by
  obtain ⟨found, hspans, hsub, hmem⟩ := exists_comments root
  have hpairs : rows.zipIdx = (Cst.nodes rows 0).map fun u => (u.row, u.index) := by
    apply List.ext_getElem?
    intro j
    rw [List.getElem?_map, List.getElem?_zipIdx]
    cases hu : (Cst.nodes rows 0)[j]? with
    | none =>
      have hrow := congrArg (·[j]?) (Cst.row_nodes rows 0)
      simp only [List.getElem?_map, hu, Option.map_none] at hrow
      simp [← hrow]
    | some u => simp [Cst.row_of_nodes hu, Cst.index_of_nodes hu]
  have hfound : found = (Cst.nodes rows 0).filter fun u =>
      u.row.isComment && decide (Exposed rows i u.index) := by
    apply eq_filter_of_sublist (hsub.trans (Cst.preorder_sublist_nodes h))
      (Cst.nodup_nodes rows 0).of_map
    intro u hu
    obtain ⟨j, hj⟩ := List.mem_iff_getElem?.1 hu
    have hindex := Cst.index_of_nodes hj
    rw [hmem, exposed_iff h hj, hindex, Nat.zero_add]
    simp
  rw [hspans, hfound, looseComments, hpairs, List.filter_map, List.map_map]
  rfl

end Comments

/-- The ranges of the rows that are kept start and end between characters of the text. -/
def Readable (text : List Char) (rows : List Row) (i : Nat) : Prop :=
  ∀ j row, Kept rows i j → rows[j]? = some row →
    isBoundary text row.span.start = true ∧ isBoundary text row.span.stop = true

namespace Arena

/-- What an element has from its row. Rows with parts become nodes; of the others the named ones
become a node around one token, unless they are pieces of a string, and the rest tokens. -/
structure StandsFor (a : Arena) (rows : List Row) (j : Nat) (row : Row) (id : Nat) : Prop where
  name : (a.get? id).map Element.name = some row.kind
  span : (a.get? id).map Element.span = some row.span
  interior : (∃ k, Covers rows j k) → a.isToken id = false
  wrapped : (∀ k, ¬Covers rows j k) → row.named = true →
    (Kind.ofName row.kind).isFragment = false → a.isToken id = false ∧
      ∃ token, a.children id = [token] ∧
        a.get? token = some ⟨row.kind, row.span, some id, none, .token true⟩
  bare : (∀ k, ¬Covers rows j k) →
    row.named = false ∨ (Kind.ofName row.kind).isFragment = true → a.isToken id = true

structure Represents (a : Arena) (rows : List Row) (i : Nat) : Prop where
  root : a.find? i = some a.root
  found_iff : ∀ j, (a.find? j).isSome = true ↔ Kept rows i j
  injective : ∀ {j k id}, a.find? j = some id → a.find? k = some id → j = k
  element : ∀ {j id}, a.find? j = some id →
    ∃ row, rows[j]? = some row ∧ a.StandsFor rows j row id
  within : ∀ {j k p q}, a.find? j = some p → a.find? k = some q →
    (a.isWithin q p = true ↔ j = k ∨ Covers rows j k)
  /-- All other elements are the tokens of named leaves. -/
  complete : ∀ id < a.size, (∃ j, a.find? j = some id) ∨
    a.isToken id = true ∧ ∃ w j, a.find? j = some w ∧ a.children w = [id]
  comments : a.comments = looseComments rows i

end Arena

section Represents

variable {text : List Char} {rows : List Row} {a : Arena} {s : Shape} {root p : Place}
  {top u : Cst} {i j k after : Nat}

theorem children_eq_nil_iff (h : (Cst.nodes rows 0)[j]? = some u) :
    u.children = [] ↔ ∀ k, ¬Covers rows j k := by
  obtain ⟨row, index, children⟩ := u
  constructor
  · intro hnil k hcovers
    change children = [] at hnil
    rw [covers_iff_lt_size h, hnil, Cst.size, Cst.sizeAll] at hcovers
    omega
  · intro hnone
    cases children with
    | nil => rfl
    | cons c children =>
      have hpos : 0 < c.size := by
        obtain ⟨row, index, children⟩ := c
        exact Nat.succ_pos _
      exact absurd ((covers_iff_lt_size h (j := j + 1)).2
        (by rw [Cst.size, Cst.sizeAll]; omega)) (hnone (j + 1))

theorem standsFor_of_lower {role : Option String} {n m : Nat} (hstores : a.Stores root)
    (hp : p ∈ root.below) (h : (Cst.nodes rows 0)[j]? = some u)
    (hlower : lower text u role n = .ok (p.here, m)) : a.StandsFor rows j u.row p.id := by
  have hleaf := children_eq_nil_iff h
  have htoken := hstores.isToken_id hp
  have hname : (a.get? p.id).map Element.name = some u.kind := by
    rw [hstores.get?_id hp, Option.map_some]
    exact congrArg some (name_of_lower hlower)
  have hspan : (a.get? p.id).map Element.span = some u.span := by
    rw [hstores.get?_id hp, Option.map_some]
    exact congrArg some (span_of_lower hlower)
  obtain ⟨row, index, children⟩ := u
  obtain ⟨content, _, hs⟩ := lower_cases hlower
  change children = [] ↔ _ at hleaf
  rcases hs with ⟨hnil, hnamed, hplain, hplace, _⟩ | ⟨hnil, hbare, hplace, _⟩ |
    ⟨hne, shapes, _, hplace⟩
  · let inner : Label := ⟨n + 1, row.kind, none, row.span, content⟩
    have hnode : p.isToken = false := congrArg Shape.isToken hplace
    have hchildren : p.children = [⟨.token inner true, p.line⟩] := Place.children_of_here hplace
    have hinner : ⟨.token inner true, p.line⟩ ∈ root.below :=
      Place.below_trans hp (Place.child_mem_below (hchildren ▸ List.mem_singleton_self _))
    refine ⟨hname, hspan, fun _ => htoken.trans hnode,
      fun _ _ _ => ⟨htoken.trans hnode, inner.id, ?_, ?_⟩, ?_⟩
    · rw [hstores.children_id hp, hchildren]
      rfl
    · exact hstores.get?_id hinner
    · intro _ hbare
      cases hbare with
      | inl hn => exact absurd (hnamed.symm.trans hn) (by simp)
      | inr hf => exact absurd (hf.symm.trans hplain) (by simp)
  · have hbaretoken : p.isToken = true := congrArg Shape.isToken hplace
    refine ⟨hname, hspan, ?_, ?_, fun _ _ => htoken.trans hbaretoken⟩
    · intro hcovers
      obtain ⟨k, hk⟩ := hcovers
      exact absurd hk (hleaf.1 hnil k)
    · intro _ hnamed hplain
      cases hbare with
      | inl hn => exact absurd (hnamed.symm.trans hn) (by simp)
      | inr hf => exact absurd (hf.symm.trans hplain) (by simp)
  · have hnode : p.isToken = false := congrArg Shape.isToken hplace
    exact ⟨hname, hspan, fun _ => htoken.trans hnode, fun hnone => absurd (hleaf.2 hnone) hne,
      fun hnone => absurd (hleaf.2 hnone) hne⟩

theorem exists_node_of_reaches (htop : (Cst.nodes rows 0)[i]? = some top) (h : top.Reaches u) :
    (Cst.nodes rows 0)[u.index]? = some u := by
  obtain ⟨j, hj⟩ := Cst.exists_row_of_mem htop h.mem_preorder
  rw [Cst.index_of_nodes hj, Nat.zero_add]
  exact hj

theorem kept_of_covers (hik : Kept rows i k) (hij : i = j ∨ Covers rows i j)
    (hjk : Covers rows j k) : Kept rows j k := by
  have hlt := hjk.lt
  have hcovers : ∀ m, Covers rows j m → Covers rows i m := by
    intro m hm
    cases hij with
    | inl heq => exact heq ▸ hm
    | inr h => exact h.trans hm
  cases hik with
  | inl heq =>
    cases hij with
    | inl heq' => omega
    | inr h =>
      have hlt' := h.lt
      omega
  | inr hexposed =>
    obtain ⟨⟨_, hclear⟩, hextra⟩ := hexposed
    exact Or.inr ⟨⟨hjk, fun m hm hjm => hclear m hm (hcovers m hjm)⟩, hextra⟩

end Represents

section Finding

variable {text : List Char} {rows : List Row} {s : Shape} {top u v : Cst} {i j k p q after : Nat}

theorem find?_iff (htop : (Cst.nodes rows 0)[i]? = some top)
    (h : lower text top none 0 = .ok (s, after)) : (Arena.build top).find? j = some p ↔
      ∃ r, (r, some j) ∈ tagged top ⟨s, []⟩ ∧ r.id = p :=
  Arena.find?_eq_some_iff (Cst.nodup_preorder htop) h

theorem reached_of_find? (htop : (Cst.nodes rows 0)[i]? = some top)
    (h : lower text top none 0 = .ok (s, after)) (hp : (Arena.build top).find? j = some p) :
    ∃ r ∈ Place.below ⟨s, []⟩, r.id = p ∧ (r, some j) ∈ tagged top ⟨s, []⟩ ∧
      ∃ u, top.Reaches u ∧ u.index = j ∧ tagged u r ⊆ tagged top ⟨s, []⟩ ∧
        ∃ role n m, lower text u role n = .ok (r.here, m) := by
  obtain ⟨r, htag, hid⟩ := (find?_iff htop h).1 hp
  exact ⟨r, mem_below_of_tagged h htag, hid, htag,
    stands_of_tag top (p := ⟨s, []⟩) h (r, some j) htag⟩

theorem within_iff_covers (htop : (Cst.nodes rows 0)[i]? = some top)
    (h : lower text top none 0 = .ok (s, after)) (hp : (Arena.build top).find? j = some p)
    (hq : (Arena.build top).find? k = some q) :
    (Arena.build top).isWithin q p = true ↔ j = k ∨ Covers rows j k := by
  have hstores := Arena.stores_of_lower h
  obtain ⟨outer, houter, rfl, _, u, hu, rfl, htags, _, _, _, hlower⟩ := reached_of_find? htop h hp
  obtain ⟨inner, hinner, rfl, htag, v, hv, rfl, _⟩ := reached_of_find? htop h hq
  have hunode := exists_node_of_reaches htop hu
  have hvnode := exists_node_of_reaches htop hv
  rw [hstores.isWithin_id hinner,
    hstores.distinct.isWithin_iff_mem_below hstores.top hinner houter]
  constructor
  · intro hin
    -- the inner element has a tag below the outer one too, and there is only one for it
    rw [← map_fst_tagged u hlower] at hin
    obtain ⟨⟨_, row⟩, htag', rfl⟩ := List.mem_map.1 hin
    rw [row_unique h (htags htag') htag] at htag'
    obtain ⟨w, hw, hindex, _⟩ := stands_of_tag u hlower _ htag'
    have hwnode := exists_node_of_reaches hunode hw
    rw [hindex] at hwnode
    exact (Cst.mem_preorder_iff hunode hwnode).1 hw.mem_preorder
  · intro hbelow
    -- the node of the one row is reached from that of the other, so its element is found below
    have hreach : u.Reaches v := by
      cases hbelow with
      | inl heq =>
        rw [heq, hvnode, Option.some.injEq] at hunode
        exact hunode ▸ .here v
      | inr hcovers =>
        have hij := (Cst.mem_preorder_iff htop hunode).1 hu.mem_preorder
        have hik := (reaches_iff_kept htop hvnode).1 hv
        exact (reaches_iff_kept hunode hvnode).2 (kept_of_covers hik hij hcovers)
    obtain ⟨x, hx, hsub, _⟩ := exists_place_of_reaches hreach hlower
    have hfind := (find?_iff htop h).2 ⟨x, htags (hsub (mem_tagged_self v x)), rfl⟩
    rw [hq, Option.some.injEq] at hfind
    exact hstores.distinct.eq hinner (Place.below_trans houter hx) hfind ▸ hx

theorem represents_of_lower (htop : (Cst.nodes rows 0)[i]? = some top)
    (h : lower text top none 0 = .ok (s, after)) : (Arena.build top).Represents rows i := by
  have hstores := Arena.stores_of_lower h
  have hindex : top.index = i := by
    rw [Cst.index_of_nodes htop, Nat.zero_add]
  refine {
    root := ?_
    found_iff := ?_
    injective := ?_
    element := ?_
    within := within_iff_covers htop h
    complete := ?_
    comments := (congrArg Arena.comments (Arena.build_of_lower h)).trans (comments_eq_loose htop) }
  · have hroot : (Arena.build top).root = 0 := congrArg Arena.root (Arena.build_of_lower h)
    rw [hroot, find?_iff htop h, ← hindex]
    exact ⟨⟨s, []⟩, mem_tagged_self top _, hstores.numbered.id_eq⟩
  · intro j
    constructor
    · intro hsome
      obtain ⟨p, hp⟩ := Option.isSome_iff_exists.1 hsome
      obtain ⟨_, _, _, _, u, hu, rfl, _⟩ := reached_of_find? htop h hp
      exact (reaches_iff_kept htop (exists_node_of_reaches htop hu)).1 hu
    · intro hkept
      have hlt : j < rows.length := by
        cases hkept with
        | inl heq => exact heq ▸ (List.getElem?_eq_some_iff.1 (Cst.row_of_nodes htop)).1
        | inr hexposed => exact hexposed.1.1.2.1
      obtain ⟨u, hu⟩ := Cst.exists_node 0 hlt
      obtain ⟨p, _, htags, _⟩ := exists_place_of_reaches (p := ⟨s, []⟩)
        ((reaches_iff_kept htop hu).2 hkept) h
      have hfind := (find?_iff htop h).2 ⟨p, htags (mem_tagged_self u p), rfl⟩
      rw [Cst.index_of_nodes hu, Nat.zero_add] at hfind
      rw [hfind, Option.isSome_some]
  · intro j k id hj hk
    obtain ⟨p, hp, hid, htag, _⟩ := reached_of_find? htop h hj
    obtain ⟨q, hq, hid', htag', _⟩ := reached_of_find? htop h hk
    rw [hstores.distinct.eq hq hp (hid'.trans hid.symm)] at htag'
    exact Option.some.inj (row_unique h htag htag')
  · intro j id hfind
    obtain ⟨p, hp, rfl, _, u, hu, rfl, _, _, _, _, hlower⟩ := reached_of_find? htop h hfind
    have hnode := exists_node_of_reaches htop hu
    exact ⟨u.row, Cst.row_of_nodes hnode, standsFor_of_lower hstores hp hnode hlower⟩
  · intro id hlt
    obtain ⟨p, hp, rfl⟩ := hstores.exists_place hlt
    have hin := hp
    rw [← map_fst_tagged top (p := ⟨s, []⟩) h] at hin
    obtain ⟨⟨_, row⟩, htag, rfl⟩ := List.mem_map.1 hin
    cases row with
    | some j => exact Or.inl ⟨j, (find?_iff htop h).2 ⟨_, htag, rfl⟩⟩
    | none =>
      obtain ⟨htoken, w, j, hw, hchildren⟩ := stands_of_tag top (p := ⟨s, []⟩) h _ htag
      refine Or.inr ⟨(hstores.isToken_id hp).trans htoken, w.id, j,
        (find?_iff htop h).2 ⟨w, hw, rfl⟩, ?_⟩
      rw [hstores.children_id (mem_below_of_tagged h hw), hchildren]
      rfl

theorem exists_tree_iff {source : Source} (htop : (Cst.nodes rows 0)[i]? = some top) :
    (∃ tree, Tree.ofCst source top = .ok tree) ↔ Readable source.text rows i := by
  constructor
  · intro hexists j row hkept hrow
    obtain ⟨tree, htree⟩ := hexists
    obtain ⟨shape, after, h, _⟩ := lower_of_ofCst htree
    obtain ⟨u, hu⟩ := Cst.exists_node 0 (List.getElem?_eq_some_iff.1 hrow).1
    have hreach := (reaches_iff_kept htop hu).2 hkept
    obtain ⟨p, _, _, _, _, _, hlower⟩ := exists_place_of_reaches (p := ⟨shape, []⟩) hreach h
    rw [Cst.row_of_nodes hu, Option.some.injEq] at hrow
    subst hrow
    obtain ⟨row, index, children⟩ := u
    obtain ⟨content, hslice, _⟩ := lower_cases hlower
    exact boundaries_of_slice hslice
  · intro hreadable
    have htexts : ∀ u, top.Reaches u → ∃ content, u.text source.text = .ok content := by
      intro u hu
      have hnode := exists_node_of_reaches htop hu
      obtain ⟨hstart, hstop⟩ := hreadable u.index u.row ((reaches_iff_kept htop hnode).1 hu)
        (Cst.row_of_nodes hnode)
      exact exists_slice hstart hstop
    obtain ⟨⟨shape, after⟩, h⟩ := exists_lower_of_readable top none 0 htexts
    exact ⟨_, ofCst_of_lower h⟩

end Finding

/-- The places of a tree show its arena: each the element of its number, with the text that is cut for
it on demand. -/
structure Tree.Shows (tree : Tree) : Prop where
  elements : tree.arena.elements.toList = tree.places.map Place.element
  id_eq : ∀ {id p}, tree.get? id = some p → p.id = id
  ancestors : ∀ p ∈ tree.places, tree.arena.ancestors p.id = p.ancestors.map Place.id
  within : ∀ p ∈ tree.places, ∀ id, tree.arena.isWithin p.id id = p.isWithin id
  text : ∀ p ∈ tree.places, tree.arena.text tree.source p.id = .ok p.text

theorem shows_of_lower {source : Source} {t : Cst} {s : Shape} {after : Nat}
    (h : lower source.text t none 0 = .ok (s, after)) :
    Tree.Shows ⟨source, Arena.build t, placesFrom [] s⟩ := by
  have hstores := Arena.stores_of_lower h
  refine {
    elements := Arena.elements_of_lower h
    id_eq := fun hget => (lowered_of_lower h).id_of_get? hget
    ancestors := fun p hp => hstores.ancestors_id hp
    within := fun p hp id => hstores.isWithin_id hp
    text := ?_ }
  intro p hp
  rw [Arena.text, hstores.get?_id hp]
  exact slice_of_lower t [] h p hp

/-- From every row of every list an arena is built in which numbers, parents and children fit together
and whose elements and comments are those that the rows show; as long as it has no more elements than
there are numbers of 32 bits, these are enough. With a source text there is a tree exactly if the
ranges that are kept fit the text, and its places show the arena. -/
theorem build_represents_rows (rows : List Row) {i : Nat} (hi : i < rows.length) :
    ∃ top, (Cst.nodes rows 0)[i]? = some top ∧ (Arena.build top).Consistent ∧
      (Arena.build top).Represents rows i ∧
      ((Arena.build top).size ≤ UInt32.size → Arena.buildWith Arena.capped top = Arena.build top) ∧
      ∀ source, ((∃ tree, Tree.ofCst source top = .ok tree) ↔ Readable source.text rows i) ∧
        ∀ tree, Tree.ofCst source top = .ok tree →
          tree.source = source ∧ tree.arena = Arena.build top ∧ tree.Shows := by
  obtain ⟨top, htop⟩ := Cst.exists_node 0 hi
  -- the arena does not depend on a text, so any text that fits the tree will do
  obtain ⟨text, s, after, h⟩ := exists_text_lower top
  have hroot : (Arena.build top).root = 0 := congrArg Arena.root (Arena.build_of_lower h)
  refine ⟨top, htop, (Arena.stores_of_lower h).consistent hroot, represents_of_lower htop h,
    Arena.buildWith_capped top, fun source => ⟨exists_tree_iff htop, fun tree htree => ?_⟩⟩
  obtain ⟨shape, after', hlower, rfl⟩ := lower_of_ofCst htree
  exact ⟨rfl, rfl, shows_of_lower hlower⟩

def commentedText : List Char :=
  "\x7b g( #/*a*/ 1); /*b*/ \x7d".toList

/-- The rows of the text; the character that fits nowhere is an extra and holds a comment. -/
def commentedRows : List Row :=
  [part 0 "program" 0 23, part 1 "block" 0 23, mark 2 "\x7b" 0,
    part 2 "expression_statement" 2 13, part 3 "method_invocation" 2 12, part 4 "identifier" 2 1,
    part 4 "argument_list" 3 11, mark 5 "(" 3, extra 5 "ERROR" 5 6, mark 6 "#" 5,
    extra 6 "block_comment" 6 5, part 5 "decimal_integer_literal" 12 1, mark 5 ")" 13,
    mark 3 ";" 14, extra 2 "block_comment" 16 5, mark 2 "\x7d" 22]
where
  part (depth : Nat) (kind : String) (start length : Nat) : Row :=
    { (Cst.part kind start length none []).row with depth := depth }
  extra (depth : Nat) (kind : String) (start length : Nat) : Row :=
    { part depth kind start length with extra := true }
  mark (depth : Nat) (token : String) (start : Nat) : Row :=
    { (Cst.mark token start).row with depth := depth }

/-- The block has 13 elements, and only the comment outside of the error counts. -/
theorem block_represents_its_rows : ∃ top tree, (Cst.nodes commentedRows 0)[1]? = some top ∧
    (Arena.build top).Consistent ∧ (Arena.build top).Represents commentedRows 1 ∧
    Arena.buildWith Arena.capped top = Arena.build top ∧
    Tree.ofCst (.ofText commentedText) top = .ok tree ∧ tree.arena = Arena.build top ∧
    tree.Shows ∧ (Arena.build top).size = 13 ∧ (Arena.build top).find? 10 = none ∧
    (Arena.build top).comments = [⟨16, 21, by decide⟩] := by
  have hlt : 1 < commentedRows.length := by decide
  obtain ⟨top, htop, hconsistent, hrepresents, hcapped, hall⟩ :=
    build_represents_rows commentedRows hlt
  have hcheck : ((Cst.nodes commentedRows 0)[1]?).all (fun top => (Arena.build top).size == 13 &&
      (Tree.ofCst (.ofText commentedText) top).toOption.isSome) = true := by
    decide +kernel
  rw [htop, Option.all_some, Bool.and_eq_true, beq_iff_eq, Option.isSome_iff_exists] at hcheck
  obtain ⟨hsize, tree, htree⟩ := hcheck
  rw [toOption_eq_some] at htree
  obtain ⟨_, harena, hshows⟩ := (hall (.ofText commentedText)).2 tree htree
  refine ⟨top, tree, htop, hconsistent, hrepresents, hcapped (by rw [hsize]; decide), htree, harena, hshows,
    hsize, ?_, ?_⟩
  · have hnot : ¬Kept commentedRows 1 10 := by decide +kernel
    rw [← hrepresents.found_iff] at hnot
    simpa using hnot
  · rw [hrepresents.comments]
    decide +kernel

end IfCollapse.Java
