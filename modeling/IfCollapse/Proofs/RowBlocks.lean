import IfCollapse.Proofs.Subtrees
import Mathlib.Data.List.Pairwise
import Mathlib.Data.List.TakeWhile

/-! Rows in preorder. A row lies below another one if it follows it and all rows on the way are
deeper; so what lies below a row is a block behind it. The nodes that are read from the rows have
exactly these blocks, and a node is reached without passing an extra if the rows say so. -/

namespace IfCollapse.Java

section Rows

variable {rows : List Row} {i j k : Nat}

/-- Row `j` lies below row `i`: it comes later, and from there on up to it every row is deeper. -/
def Covers (rows : List Row) (i j : Nat) : Prop :=
  i < j ∧ j < rows.length ∧
    ∀ k ≤ j, i < k → ∀ r ∈ rows[i]?, ∀ s ∈ rows[k]?, r.depth < s.depth

instance : Decidable (Covers rows i j) := inferInstanceAs (Decidable (_ ∧ _ ∧ _))

/-- Row `j` lies below row `i`, and no row between the two is an extra. -/
def Exposed (rows : List Row) (i j : Nat) : Prop :=
  Covers rows i j ∧ ∀ k < j, Covers rows i k → Covers rows k j → ∀ r ∈ rows[k]?, r.extra = false

instance : Decidable (Exposed rows i j) := inferInstanceAs (Decidable (_ ∧ _))

/-- Row `j` is row `i`, or lies below it with no extra on the way down, itself included. -/
def Kept (rows : List Row) (i j : Nat) : Prop :=
  i = j ∨ Exposed rows i j ∧ ∀ r ∈ rows[j]?, r.extra = false

instance : Decidable (Kept rows i j) := inferInstanceAs (Decidable (_ ∨ _))

theorem Covers.lt (h : Covers rows i j) : i < j := h.1

theorem Covers.of_le (h : Covers rows i j) (hik : i < k) (hkj : k ≤ j) : Covers rows i k :=
  ⟨hik, Nat.lt_of_le_of_lt hkj h.2.1, fun m hm => h.2.2 m (Nat.le_trans hm hkj)⟩

theorem Covers.trans (hij : Covers rows i j) (hjk : Covers rows j k) : Covers rows i k := by
  refine ⟨Nat.lt_trans hij.lt hjk.lt, hjk.2.1, ?_⟩
  intro m hm him r hr s hs
  by_cases hmj : m ≤ j
  · exact hij.2.2 m hmj him r hr s hs
  · obtain ⟨t, ht⟩ : ∃ t, rows[j]? = some t := ⟨_, List.getElem?_eq_getElem hij.2.1⟩
    calc
      r.depth < t.depth := hij.2.2 j (Nat.le_refl j) hij.lt r hr t ht
      _ < s.depth := hjk.2.2 m hm (by omega) t ht s hs

theorem covers_cons_succ {row : Row} : Covers (row :: rows) (i + 1) (j + 1) ↔ Covers rows i j := by
  simp only [Covers, List.length_cons, List.getElem?_cons_succ, Nat.add_lt_add_iff_right]
  refine and_congr_right fun _ => and_congr_right fun _ => ?_
  constructor
  · intro h k hk hik
    exact h (k + 1) (by omega) (by omega)
  · intro h k hk hik
    cases k with
    | zero => omega
    | succ k => exact h k (by omega) (by omega)

end Rows

mutual

theorem Cst.length_preorder : ∀ t : Cst, t.preorder.length = t.size
  | .node row index children => by
    rw [Cst.preorder, List.length_cons, Cst.length_preorderAll children, Cst.size]

theorem Cst.length_preorderAll : ∀ trees : List Cst,
    (Cst.preorderAll trees).length = Cst.sizeAll trees
  | [] => rfl
  | t :: trees => by
    rw [Cst.preorderAll, List.length_append, Cst.length_preorder t, Cst.length_preorderAll trees,
      Cst.sizeAll]

end

/-- The nodes that are read from rows, each at the place of its row. -/
def Cst.nodes (rows : List Row) (first : Nat) : List Cst :=
  Cst.preorderAll (Cst.forest rows first)

section Nodes

variable {rows : List Row} {first i j k : Nat} {t u c : Cst}

theorem Cst.nodes_split (row : Row) (rows : List Row) (first : Nat) :
    Cst.nodes rows first =
      Cst.preorderAll ((Cst.forest rows first).takeWhile fun t => row.depth < t.row.depth) ++
        Cst.preorderAll ((Cst.forest rows first).dropWhile fun t => row.depth < t.row.depth) := by
  rw [Cst.preorderAll_eq, Cst.preorderAll_eq, ← List.flatMap_append,
    List.takeWhile_append_dropWhile, Cst.nodes, Cst.preorderAll_eq]

theorem Cst.nodes_cons (row : Row) (rows : List Row) (first : Nat) :
    Cst.nodes (row :: rows) first =
      .node row first
        ((Cst.forest rows (first + 1)).takeWhile fun t => row.depth < t.row.depth) ::
        Cst.nodes rows (first + 1) := by
  rw [Cst.nodes_split row rows (first + 1)]
  rfl

theorem Cst.row_nodes (rows : List Row) (first : Nat) :
    (Cst.nodes rows first).map Cst.row = rows := by
  induction rows generalizing first with
  | nil => rfl
  | cons row rows ih =>
    rw [Cst.nodes_cons, List.map_cons, ih]
    rfl

theorem Cst.row_of_nodes (h : (Cst.nodes rows first)[i]? = some t) : rows[i]? = some t.row := by
  have hrow := congrArg (·[i]?) (Cst.row_nodes rows first)
  simp only [List.getElem?_map, h, Option.map_some] at hrow
  exact hrow.symm

theorem Cst.index_of_nodes (h : (Cst.nodes rows first)[i]? = some t) : t.index = first + i := by
  have hindex := congrArg (·[i]?) (indices_forest rows first)
  change ((Cst.nodes rows first).map Cst.index)[i]? = _ at hindex
  rw [List.getElem?_map, h, Option.map_some] at hindex
  obtain ⟨hi, heq⟩ := List.getElem?_eq_some_iff.1 hindex.symm
  rw [← heq, List.getElem_range', Nat.one_mul]

theorem Cst.exists_node (first : Nat) (h : i < rows.length) :
    ∃ t, (Cst.nodes rows first)[i]? = some t := by
  have hlength := congrArg List.length (Cst.row_nodes rows first)
  rw [List.length_map] at hlength
  exact ⟨_, List.getElem?_eq_getElem (hlength ▸ h)⟩

theorem Cst.depth_le_of_forest (ht : t ∈ Cst.forest rows first) (hu : u ∈ t.preorder) :
    t.row.depth ≤ u.row.depth := by
  induction rows generalizing first t with
  | nil => simp [Cst.forest] at ht
  | cons row rows ih =>
    rw [Cst.forest, Cst.adopt] at ht
    cases List.mem_cons.1 ht with
    | inr hlater => exact ih ((List.dropWhile_sublist _).subset hlater) hu
    | inl heq =>
      subst heq
      rw [Cst.preorder, List.mem_cons] at hu
      cases hu with
      | inl heq => exact Nat.le_of_eq (by rw [heq])
      | inr hpart =>
        rw [Cst.preorderAll_eq, List.mem_flatMap] at hpart
        obtain ⟨c, hc, huc⟩ := hpart
        have hdeeper : row.depth < c.row.depth := by
          simpa using List.mem_takeWhile_imp hc
        have hbelow := ih ((List.takeWhile_sublist _).subset hc) huc
        exact Nat.le_of_lt (Nat.lt_of_lt_of_le hdeeper hbelow)

theorem covers_zero_iff (first : Nat) {row : Row} :
    Covers (row :: rows) 0 j ↔ 0 < j ∧ j ≤ (Cst.preorderAll
      ((Cst.forest rows first).takeWhile fun t => row.depth < t.row.depth)).length := by
  have hrows := Cst.row_nodes rows first
  rw [Cst.nodes_split row, List.map_append] at hrows
  generalize hfront : Cst.preorderAll ((Cst.forest rows first).takeWhile _) = front at hrows ⊢
  generalize hback : Cst.preorderAll ((Cst.forest rows first).dropWhile _) = back at hrows
  have hdeeper : ∀ u ∈ front, row.depth < u.row.depth := by
    intro u hu
    rw [← hfront, Cst.preorderAll_eq, List.mem_flatMap] at hu
    obtain ⟨c, hc, huc⟩ := hu
    have hroot : row.depth < c.row.depth := by
      simpa using List.mem_takeWhile_imp hc
    exact Nat.lt_of_lt_of_le hroot
      (Cst.depth_le_of_forest ((List.takeWhile_sublist _).subset hc) huc)
  have hnext : ∀ u ∈ back.head?, u.row.depth ≤ row.depth := by
    intro u hu
    have hhead := List.head?_dropWhile_not (fun t : Cst => decide (row.depth < t.row.depth))
      (Cst.forest rows first)
    rw [← hback] at hu
    cases hdrop : (Cst.forest rows first).dropWhile fun t => row.depth < t.row.depth with
    | nil => simp [hdrop, Cst.preorderAll] at hu
    | cons c trees =>
      rw [hdrop, Cst.preorderAll, Cst.preorder_eq] at hu
      simp only [List.cons_append, List.head?_cons, Option.mem_def, Option.some.injEq] at hu
      simp only [hdrop, List.head?_cons, decide_eq_false_iff_not, Nat.not_lt] at hhead
      exact hu ▸ hhead
  subst hrows
  constructor
  · rintro ⟨hpos, hlt, hall⟩
    refine ⟨hpos, ?_⟩
    by_contra hlong
    -- the row behind the adopted trees would be deeper
    rw [List.length_cons, List.length_append, List.length_map, List.length_map] at hlt
    cases back with
    | nil => simp at hlt; omega
    | cons u back =>
      have hlow := hnext u rfl
      have hhigh := hall (front.length + 1) (by omega) (by omega) row rfl u.row
        (by simp)
      omega
  · rintro ⟨hpos, hle⟩
    refine ⟨hpos, by simp; omega, ?_⟩
    intro k hk hkpos r hr s hs
    cases k with
    | zero => omega
    | succ k =>
      have hr' : row = r := by simpa using hr
      rw [Option.mem_def, List.getElem?_cons_succ,
        List.getElem?_append_left (by rw [List.length_map]; omega), List.getElem?_map,
        Option.map_eq_some_iff] at hs
      obtain ⟨u, hu, rfl⟩ := hs
      rw [← hr']
      exact hdeeper u (List.mem_of_getElem? hu)

theorem covers_iff_lt_size (h : (Cst.nodes rows first)[i]? = some t) :
    Covers rows i j ↔ i < j ∧ j < i + t.size := by
  induction rows generalizing first i j with
  | nil => simp [Cst.nodes, Cst.forest, Cst.preorderAll] at h
  | cons row rows ih =>
    rw [Cst.nodes_cons] at h
    cases i with
    | zero =>
      rw [List.getElem?_cons_zero, Option.some.injEq] at h
      rw [← h, Cst.size, covers_zero_iff (first + 1), Cst.length_preorderAll]
      omega
    | succ i =>
      rw [List.getElem?_cons_succ] at h
      cases j with
      | zero => simp [Covers]
      | succ j =>
        rw [covers_cons_succ, ih h]
        omega

theorem Cst.preorder_eq_slice (h : (Cst.nodes rows first)[i]? = some t) :
    t.preorder = ((Cst.nodes rows first).drop i).take t.size := by
  induction rows generalizing first i with
  | nil => simp [Cst.nodes, Cst.forest, Cst.preorderAll] at h
  | cons row rows ih =>
    rw [Cst.nodes_cons] at h ⊢
    cases i with
    | zero =>
      rw [List.getElem?_cons_zero, Option.some.injEq] at h
      rw [← h, Cst.preorder, Cst.size, List.drop_zero, List.take_succ_cons, Cst.nodes_split row,
        ← Cst.length_preorderAll, List.take_left]
    | succ i =>
      rw [List.getElem?_cons_succ] at h
      rw [List.drop_succ_cons]
      exact ih h

theorem Cst.mem_preorder_iff (ht : (Cst.nodes rows first)[i]? = some t)
    (hu : (Cst.nodes rows first)[j]? = some u) :
    u ∈ t.preorder ↔ i = j ∨ Covers rows i j := by
  have hpos : 0 < t.size := by
    obtain ⟨row, index, children⟩ := t
    rw [Cst.size]
    omega
  have hblock : i = j ∨ Covers rows i j ↔ i ≤ j ∧ j < i + t.size := by
    rw [covers_iff_lt_size ht]
    omega
  rw [hblock, Cst.preorder_eq_slice ht, List.mem_iff_getElem?]
  constructor
  · rintro ⟨m, hm⟩
    rw [List.getElem?_take, List.getElem?_drop] at hm
    split at hm
    · have hindex := Cst.index_of_nodes hm
      rw [Cst.index_of_nodes hu] at hindex
      omega
    · simp at hm
  · rintro ⟨hij, hlt⟩
    refine ⟨j - i, ?_⟩
    rw [List.getElem?_take, List.getElem?_drop, if_pos (by omega), Nat.add_sub_cancel' hij]
    exact hu

theorem Cst.preorder_sublist_nodes (h : (Cst.nodes rows first)[i]? = some t) :
    t.preorder.Sublist (Cst.nodes rows first) := by
  rw [Cst.preorder_eq_slice h]
  exact (List.take_sublist _ _).trans (List.drop_sublist _ _)

theorem Cst.exists_row_of_mem (ht : (Cst.nodes rows first)[i]? = some t) (hu : u ∈ t.preorder) :
    ∃ j : Nat, (Cst.nodes rows first)[j]? = some u :=
  List.mem_iff_getElem?.1 ((Cst.preorder_sublist_nodes ht).subset hu)

theorem Cst.nodup_nodes (rows : List Row) (first : Nat) :
    ((Cst.nodes rows first).map Cst.index).Nodup := by
  rw [Cst.nodes, indices_forest]
  exact List.nodup_range'

theorem Cst.nodup_preorder (h : (Cst.nodes rows first)[i]? = some t) :
    (t.preorder.map Cst.index).Nodup :=
  (Cst.nodup_nodes rows first).sublist ((Cst.preorder_sublist_nodes h).map Cst.index)

theorem Cst.mem_preorder_self (t : Cst) : t ∈ t.preorder :=
  (Cst.Reaches.here t).mem_preorder

theorem Cst.mem_preorder_of_child {t c : Cst} (hc : c ∈ t.children) : c ∈ t.preorder :=
  (Cst.preorder_sublist_of_child hc).subset c.mem_preorder_self

theorem exists_child_of_covers (ht : (Cst.nodes rows first)[i]? = some t)
    (hu : (Cst.nodes rows first)[j]? = some u) (h : Covers rows i j) :
    ∃ c ∈ t.children, u ∈ c.preorder := by
  have hmem := (Cst.mem_preorder_iff ht hu).2 (Or.inr h)
  rw [t.preorder_eq, List.mem_cons, Cst.preorderAll_eq, List.mem_flatMap] at hmem
  cases hmem with
  | inr hpart => exact hpart
  | inl heq =>
    have hindex := Cst.index_of_nodes hu
    rw [heq, Cst.index_of_nodes ht] at hindex
    have hlt := h.lt
    omega

theorem covers_of_child (ht : (Cst.nodes rows first)[i]? = some t)
    (hc : (Cst.nodes rows first)[j]? = some c) (hchild : c ∈ t.children) : Covers rows i j := by
  cases (Cst.mem_preorder_iff ht hc).1 (Cst.mem_preorder_of_child hchild) with
  | inr hcovers => exact hcovers
  | inl heq =>
    -- a node is larger than its parts
    subst heq
    have hsub := (Cst.preorder_sublist_preorderAll hchild).length_le
    rw [ht, Option.some.injEq] at hc
    rw [← hc, t.preorder_eq, List.length_cons] at hsub
    omega

theorem not_covers_between (ht : (Cst.nodes rows first)[i]? = some t)
    (hc : (Cst.nodes rows first)[j]? = some c) (hchild : c ∈ t.children)
    (hik : Covers rows i k) : ¬Covers rows k j := by
  intro hkj
  obtain ⟨v, hv⟩ := Cst.exists_node first hik.2.1
  have hcv : c ∈ v.preorder := (Cst.mem_preorder_iff hv hc).2 (Or.inr hkj)
  obtain ⟨d, hd, hvd⟩ := exists_child_of_covers ht hv hik
  obtain ⟨m, hm⟩ := Cst.exists_row_of_mem ht (Cst.mem_preorder_of_child hd)
  have hmk : m ≤ k := by
    cases (Cst.mem_preorder_iff hm hv).1 hvd with
    | inl heq => exact Nat.le_of_eq heq
    | inr hcovers => exact Nat.le_of_lt hcovers.lt
  have hne : d ≠ c := by
    intro heq
    have hindex := Cst.index_of_nodes hm
    rw [heq, Cst.index_of_nodes hc] at hindex
    have hlt := hkj.lt
    omega
  -- two parts of one node have nothing in common
  have hnodup := (Cst.nodup_preorder ht).of_map
  rw [t.preorder_eq, List.nodup_cons, Cst.preorderAll_eq, List.nodup_flatMap] at hnodup
  have hsymm : Std.Symm (Function.onFun List.Disjoint Cst.preorder) :=
    ⟨fun _ _ h _ hx hy => h hy hx⟩
  have hapart := hnodup.2.2.forall hd hchild hne
  exact hapart ((Cst.preorder_sublist hvd).subset hcv) c.mem_preorder_self

theorem exposed_of_reaches (ht : (Cst.nodes rows first)[i]? = some t)
    (hu : (Cst.nodes rows first)[j]? = some u) (hreach : t.Reaches c) (hchild : u ∈ c.children) :
    Exposed rows i j := by
  induction hreach generalizing i with
  | here t =>
    refine ⟨covers_of_child ht hu hchild, ?_⟩
    intro k _ hik hkj
    exact absurd hkj (not_covers_between ht hu hchild hik)
  | part hd hextra _ ih =>
    obtain ⟨m, hm⟩ := Cst.exists_row_of_mem ht (Cst.mem_preorder_of_child hd)
    have him := covers_of_child ht hm hd
    obtain ⟨hmj, hclear⟩ := ih hm hchild
    refine ⟨him.trans hmj, ?_⟩
    intro k hk hik hkj r hr
    -- the rows above `j` form a chain, and the part is the first of them below `i`
    cases Nat.lt_trichotomy k m with
    | inl hlt =>
      have hkm := hkj.of_le hlt (Nat.le_of_lt hmj.lt)
      exact absurd hkm (not_covers_between ht hm hd hik)
    | inr hge =>
      cases hge with
      | inl heq =>
        rw [heq, Cst.row_of_nodes hm] at hr
        rw [← Option.some.inj hr]
        exact hextra
      | inr hgt => exact hclear k hk (hmj.of_le hgt (Nat.le_of_lt hkj.lt)) hkj r hr

theorem exists_reached_of_exposed (ht : (Cst.nodes rows first)[i]? = some t)
    (hu : (Cst.nodes rows first)[j]? = some u) (h : Exposed rows i j) :
    ∃ c, t.Reaches c ∧ u ∈ c.children := by
  induction hn : j - i using Nat.strong_induction_on generalizing i t with
  | _ n ih =>
    obtain ⟨hcovers, hclear⟩ := h
    obtain ⟨d, hd, hud⟩ := exists_child_of_covers ht hu hcovers
    obtain ⟨m, hm⟩ := Cst.exists_row_of_mem ht (Cst.mem_preorder_of_child hd)
    have him := covers_of_child ht hm hd
    cases (Cst.mem_preorder_iff hm hu).1 hud with
    | inl heq =>
      subst heq
      rw [hm, Option.some.injEq] at hu
      exact ⟨t, .here t, hu ▸ hd⟩
    | inr hmj =>
      have hextra : d.row.extra = false :=
        hclear m hmj.lt him hmj d.row (Cst.row_of_nodes hm)
      have hrest : Exposed rows m j :=
        ⟨hmj, fun k hk hmk hkj => hclear k hk (him.trans hmk) hkj⟩
      have hlt := him.lt
      have hlt' := hmj.lt
      obtain ⟨c, hreach, hchild⟩ := ih (j - m) (by omega) hm hrest rfl
      exact ⟨c, .part hd hextra hreach, hchild⟩

theorem exposed_iff (ht : (Cst.nodes rows first)[i]? = some t)
    (hu : (Cst.nodes rows first)[j]? = some u) :
    (∃ c, t.Reaches c ∧ u ∈ c.children) ↔ Exposed rows i j :=
  ⟨fun ⟨_, hreach, hchild⟩ => exposed_of_reaches ht hu hreach hchild,
    exists_reached_of_exposed ht hu⟩

theorem Cst.reaches_iff {t u : Cst} :
    t.Reaches u ↔ t = u ∨ (∃ c, t.Reaches c ∧ u ∈ c.children) ∧ u.row.extra = false := by
  constructor
  · intro h
    induction h with
    | here t => exact Or.inl rfl
    | part hd hextra _ ih =>
      cases ih with
      | inl heq => exact Or.inr ⟨⟨_, .here _, heq ▸ hd⟩, heq ▸ hextra⟩
      | inr hlater =>
        obtain ⟨⟨c, hreach, hchild⟩, hu⟩ := hlater
        exact Or.inr ⟨⟨c, .part hd hextra hreach, hchild⟩, hu⟩
  · intro h
    cases h with
    | inl heq => exact heq ▸ .here t
    | inr hpart =>
      obtain ⟨⟨c, hreach, hchild⟩, hu⟩ := hpart
      induction hreach with
      | here t => exact .part hchild hu (.here u)
      | part hd hextra _ ih => exact .part hd hextra (ih hchild)

theorem reaches_iff_kept (ht : (Cst.nodes rows first)[i]? = some t)
    (hu : (Cst.nodes rows first)[j]? = some u) : t.Reaches u ↔ Kept rows i j := by
  have hrow := Cst.row_of_nodes hu
  have heq : t = u ↔ i = j := by
    constructor
    · intro h
      have hindex := Cst.index_of_nodes hu
      rw [← h, Cst.index_of_nodes ht] at hindex
      omega
    · intro h
      rw [h, hu, Option.some.injEq] at ht
      exact ht.symm
  rw [Cst.reaches_iff, exposed_iff ht hu, heq, Kept]
  simp [hrow]

end Nodes

end IfCollapse.Java
