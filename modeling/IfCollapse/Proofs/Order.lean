import IfCollapse.Proofs.Flattening

/-! Telling places apart. In a numbered tree a number belongs to one place and a place to one path;
in an ordered tree two places are nested or one ends before the other starts. -/

namespace IfCollapse.Java

theorem Shape.Ordered.nonempty {s : Shape} (h : s.Ordered) : s.span.start < s.span.stop := by
  cases s with
  | token label named => exact h
  | node label children => exact h.1

theorem Shape.OrderedFrom.getElem {lo hi i : Nat} {shapes : List Shape} {s : Shape}
    (h : Shape.OrderedFrom lo hi shapes) (hs : shapes[i]? = some s) :
    s.Ordered ∧ lo ≤ s.span.start ∧ s.span.stop ≤ hi := by
  induction shapes generalizing lo i with
  | nil => simp at hs
  | cons t shapes ih =>
    obtain ⟨hlo, hhi, ht, hrest⟩ := h
    cases i with
    | zero =>
      simp only [List.getElem?_cons_zero, Option.some.injEq] at hs
      subst hs
      exact ⟨ht, hlo, hhi⟩
    | succ i =>
      obtain ⟨hs', hlo', hhi'⟩ := ih hrest hs
      have hne := ht.nonempty
      exact ⟨hs', by omega, hhi'⟩

theorem Shape.OrderedFrom.stop_le_start {lo hi i j : Nat} {shapes : List Shape} {s t : Shape}
    (h : Shape.OrderedFrom lo hi shapes) (hij : i < j) (hs : shapes[i]? = some s)
    (ht : shapes[j]? = some t) : s.span.stop ≤ t.span.start := by
  induction shapes generalizing lo i j with
  | nil => simp at hs
  | cons u shapes ih =>
    obtain ⟨_, _, _, hrest⟩ := h
    cases j with
    | zero => omega
    | succ j =>
      cases i with
      | zero =>
        simp only [List.getElem?_cons_zero, Option.some.injEq] at hs
        subst hs
        exact (hrest.getElem ht).2.1
      | succ i => exact ih hrest (by omega) hs ht

namespace Place

def Distinct (p : Place) : Prop :=
  (p.below.map Place.id).Nodup

theorem distinct_of_numbered {p : Place} {first : Nat} (h : p.here.Numbered first) :
    p.Distinct := by
  rw [Distinct, below, ids_placesFrom p.here p.above h]
  exact List.nodup_range'

def Unrelated (places : List Place) : Prop :=
  places.Pairwise fun a b => ∀ x ∈ a.below, x ∉ b.below

theorem Unrelated.index_eq {places : List Place} {i j : Nat} {a b x : Place}
    (h : Unrelated places) (ha : places[i]? = some a) (hb : places[j]? = some b)
    (hxa : x ∈ a.below) (hxb : x ∈ b.below) : i = j := by
  have hpair := List.pairwise_iff_getElem.1 h
  obtain ⟨hi, rfl⟩ := List.getElem?_eq_some_iff.1 ha
  obtain ⟨hj, rfl⟩ := List.getElem?_eq_some_iff.1 hb
  rcases Nat.lt_trichotomy i j with hlt | heq | hgt
  · exact absurd hxb (hpair i j hi hj hlt x hxa)
  · exact heq
  · exact absurd hxa (hpair j i hj hi hgt x hxb)

namespace Distinct

theorem eq {p q r : Place} (h : p.Distinct) (hq : q ∈ p.below) (hr : r ∈ p.below)
    (hid : q.id = r.id) : q = r :=
  List.inj_on_of_nodup_map h hq hr hid

theorem children {p : Place} (h : p.Distinct) :
    (p.children.flatMap below |>.map Place.id).Nodup := by
  rw [Distinct, below_eq, List.map_cons, List.nodup_cons] at h
  exact h.2

theorem child {p c : Place} (h : p.Distinct) (hc : c ∈ p.children) : c.Distinct := by
  have hflat := h.children
  rw [List.map_flatMap, List.nodup_flatMap] at hflat
  exact hflat.1 c hc

theorem of_mem_below {p q : Place} (h : p.Distinct) (hq : q ∈ p.below) : q.Distinct := by
  induction p using Place.induct with
  | step p ih =>
    rcases mem_below_iff.1 hq with rfl | ⟨c, hc, hqc⟩
    · exact h
    · exact ih c hc (h.child hc) hqc

theorem unrelated {p : Place} (h : p.Distinct) : Unrelated p.children := by
  have hflat := h.children
  rw [List.map_flatMap, List.nodup_flatMap] at hflat
  refine hflat.2.imp ?_
  intro a b hab x hxa hxb
  exact hab (List.mem_map_of_mem hxa) (List.mem_map_of_mem hxb)

theorem child_eq {p q c d : Place} {i j : Nat} (h : p.Distinct) (hc : p.children[i]? = some c)
    (hd : p.children[j]? = some d) (hqc : q ∈ c.below) (hqd : q ∈ d.below) : i = j :=
  h.unrelated.index_eq hc hd hqc hqd

theorem path_eq {p q : Place} {path path' : List Nat} (h : p.Distinct)
    (hq : p.descend path = some q) (hq' : p.descend path' = some q) : path = path' := by
  induction path generalizing p path' with
  | nil =>
    have hlen := length_line_of_descend hq
    rw [length_line_of_descend hq', List.length_nil] at hlen
    have hnil : path'.length = 0 := by omega
    exact (List.length_eq_zero_iff.1 hnil).symm
  | cons i path ih =>
    cases path' with
    | nil =>
      have hlen := length_line_of_descend hq
      rw [length_line_of_descend hq', List.length_nil, List.length_cons] at hlen
      omega
    | cons j path' =>
      obtain ⟨c, hc, hqc⟩ := descend_cons.1 hq
      obtain ⟨d, hd, hqd⟩ := descend_cons.1 hq'
      have hij := h.child_eq hc hd (mem_below_of_descend hqc)
        (mem_below_iff_descend.2 ⟨path', hqd⟩)
      subst hij
      rw [hc] at hd
      cases hd
      rw [ih (h.child (List.mem_of_getElem? hc)) hqc hqd]

theorem isWithin_iff_mem_below {p q r : Place} (h : p.Distinct) (htop : p.above = [])
    (hq : q ∈ p.below) (hr : r ∈ p.below) : q.isWithin r.id = true ↔ q ∈ r.below := by
  refine ⟨?_, isWithin_of_mem_below⟩
  intro hw
  obtain ⟨m, hline, hid⟩ := isWithin_iff.1 hw
  obtain ⟨hm, hqm⟩ := ancestor_mem_below htop hq hline
  rw [← h.eq hm hr hid]
  exact hqm

end Distinct

theorem path_cases (path path' : List Nat) :
    path <+: path' ∨ path' <+: path ∨
      ∃ common i j rest rest', i ≠ j ∧ path = common ++ i :: rest ∧
        path' = common ++ j :: rest' := by
  induction path generalizing path' with
  | nil => exact Or.inl List.nil_prefix
  | cons i path ih =>
    cases path' with
    | nil => exact Or.inr (Or.inl List.nil_prefix)
    | cons j path' =>
      by_cases hij : i = j
      · subst hij
        rcases ih path' with h | h | ⟨common, k, l, rest, rest', hkl, rfl, rfl⟩
        · exact Or.inl ((List.prefix_cons_inj i).2 h)
        · exact Or.inr (Or.inl ((List.prefix_cons_inj i).2 h))
        · exact Or.inr (Or.inr ⟨i :: common, k, l, rest, rest', hkl, rfl, rfl⟩)
      · exact Or.inr (Or.inr ⟨[], i, j, path, path', hij, rfl, rfl⟩)

theorem mem_below_of_longer {p q r : Place} {path path' : List Nat}
    (hq : p.descend path = some q) (hr : p.descend path' = some r) (h : path <+: path') :
    r ∈ q.below := by
  obtain ⟨rest, rfl⟩ := h
  obtain ⟨m, hm, hmr⟩ := descend_append.1 hr
  rw [hq] at hm
  cases hm
  exact mem_below_of_descend hmr

theorem getElem?_children {p c : Place} {i : Nat} (h : p.children[i]? = some c) :
    p.here.children[i]? = some c.here := by
  rw [children, List.getElem?_map, Option.map_eq_some_iff] at h
  obtain ⟨s, hs, rfl⟩ := h
  exact hs

section Spans

variable {p q r : Place}

theorem orderedFrom_children (h : p.here.Ordered) :
    Shape.OrderedFrom p.span.start p.span.stop p.here.children := by
  obtain ⟨s, above⟩ := p
  cases s with
  | token label named => trivial
  | node label parts => exact h.2

theorem span_of_mem_below (h : p.here.Ordered) (hq : q ∈ p.below) :
    q.here.Ordered ∧ p.span.start ≤ q.span.start ∧ q.span.stop ≤ p.span.stop := by
  induction p using induct with
  | step p ih =>
    rcases mem_below_iff.1 hq with rfl | ⟨c, hc, hqc⟩
    · exact ⟨h, Nat.le_refl _, Nat.le_refl _⟩
    · obtain ⟨i, hi⟩ := List.getElem?_of_mem hc
      obtain ⟨hco, hlo, hhi⟩ := (orderedFrom_children h).getElem (getElem?_children hi)
      obtain ⟨hqo, hlo', hhi'⟩ := ih c hc hco hqc
      exact ⟨hqo, Nat.le_trans hlo hlo', Nat.le_trans hhi' hhi⟩

theorem stop_le_start_of_children {c d : Place} {i j : Nat} (h : p.here.Ordered) (hij : i < j)
    (hc : p.children[i]? = some c) (hd : p.children[j]? = some d) (hq : q ∈ c.below)
    (hr : r ∈ d.below) : q.span.stop ≤ r.span.start := by
  have hparts := orderedFrom_children h
  have hcd := hparts.stop_le_start hij (getElem?_children hc) (getElem?_children hd)
  have hcq := span_of_mem_below (hparts.getElem (getElem?_children hc)).1 hq
  have hdr := span_of_mem_below (hparts.getElem (getElem?_children hd)).1 hr
  have hc' : q.span.stop ≤ c.here.span.stop := hcq.2.2
  have hd' : d.here.span.start ≤ r.span.start := hdr.2.1
  omega

theorem stop_le_start_of_lt {common rest rest' : List Nat} {i j : Nat} (h : p.here.Ordered)
    (hij : i < j) (hq : p.descend (common ++ i :: rest) = some q)
    (hr : p.descend (common ++ j :: rest') = some r) : q.span.stop ≤ r.span.start := by
  obtain ⟨m, hm, hmq⟩ := descend_append.1 hq
  obtain ⟨m', hm', hmr⟩ := descend_append.1 hr
  rw [hm] at hm'
  cases hm'
  obtain ⟨c, hc, hcq⟩ := descend_cons.1 hmq
  obtain ⟨d, hd, hdr⟩ := descend_cons.1 hmr
  have hmo := (span_of_mem_below h (mem_below_of_descend hm)).1
  exact stop_le_start_of_children hmo hij hc hd (mem_below_of_descend hcq)
    (mem_below_iff_descend.2 ⟨rest', hdr⟩)

theorem nested_or_apart (h : p.here.Ordered) (hq : q ∈ p.below) (hr : r ∈ p.below) :
    r ∈ q.below ∨ q ∈ r.below ∨ q.span.stop ≤ r.span.start ∨ r.span.stop ≤ q.span.start := by
  obtain ⟨path, hpath⟩ := mem_below_iff_descend.1 hq
  obtain ⟨path', hpath'⟩ := mem_below_iff_descend.1 hr
  rcases path_cases path path' with hpre | hpre | ⟨common, i, j, rest, rest', hij, rfl, rfl⟩
  · exact Or.inl (mem_below_of_longer hpath hpath' hpre)
  · exact Or.inr (Or.inl (mem_below_of_longer hpath' hpath hpre))
  · rcases Nat.lt_or_gt_of_ne hij with hlt | hgt
    · exact Or.inr (Or.inr (Or.inl (stop_le_start_of_lt h hlt hpath hpath')))
    · exact Or.inr (Or.inr (Or.inr (stop_le_start_of_lt h hgt hpath' hpath)))

/-- If a place and one below it have the same span, everything else below the outer one lies on the
way to the inner one or inside it. -/
theorem nested_of_same_span (h : p.here.Ordered) (hq : q ∈ p.below) (hr : r ∈ p.below)
    (hstart : p.span.start = q.span.start) (hstop : p.span.stop = q.span.stop) :
    r ∈ q.below ∨ q ∈ r.below := by
  obtain ⟨hro, hlo, hhi⟩ := span_of_mem_below h hr
  have hqo := (span_of_mem_below h hq).1
  have hrne : r.span.start < r.span.stop := hro.nonempty
  have hqne : q.span.start < q.span.stop := hqo.nonempty
  rcases nested_or_apart h hq hr with hn | hn | hn | hn
  · exact Or.inl hn
  · exact Or.inr hn
  · omega
  · omega

end Spans

end Place

theorem Lowered.distinct {source : Source} {cst : Cst} {tree : Tree} {root : Place}
    (hl : Lowered source cst tree root) : root.Distinct :=
  Place.distinct_of_numbered hl.numbered

end IfCollapse.Java
