import IfCollapse.Proofs.Subtrees
import Mathlib.Logic.Relation

/-! Arenas that lowering builds. Parents and children agree, children come behind their parents in
order, and everything below an element is a block of numbers. With numbers of 32 bits the same arena
comes out if it has no more elements than there are numbers. -/

namespace IfCollapse.Java

section Numbers

theorem Shape.NumberedAll.ascending {first : Nat} {shapes : List Shape}
    (h : Shape.NumberedAll first shapes) : (shapes.map Shape.id).Pairwise (· < ·) := by
  induction shapes generalizing first with
  | nil => exact List.Pairwise.nil
  | cons t shapes ih =>
    rw [List.map_cons, List.pairwise_cons]
    refine ⟨?_, ih h.2⟩
    intro id hid
    obtain ⟨s, hs, rfl⟩ := List.mem_map.1 hid
    have hle := (h.2.of_mem hs).1
    have hfirst := h.1.id_eq
    have hpos := t.size_pos
    omega

namespace Place

variable {root p q c a b : Place}

theorem numberedAll_children (h : p.here.Numbered p.id) :
    Shape.NumberedAll (p.id + 1) p.here.children := by
  obtain ⟨s, above⟩ := p
  cases s with
  | token label named => trivial
  | node label children => exact h.2

theorem numbered_of_mem_below (h : p.here.Numbered p.id) (hq : q ∈ p.below) :
    q.here.Numbered q.id := by
  induction p using Place.induct with
  | step p ih =>
    cases mem_below_iff.1 hq with
    | inl heq => exact heq ▸ h
    | inr hpart =>
      obtain ⟨c, hc, hqc⟩ := hpart
      obtain ⟨s, hs, rfl⟩ := List.mem_map.1 hc
      exact ih _ hc ((numberedAll_children h).of_mem hs).2 hqc

theorem ascending_children (h : p.here.Numbered p.id) :
    (p.id :: p.children.map Place.id).Pairwise (· < ·) := by
  have hparts := numberedAll_children h
  have hids : p.children.map Place.id = p.here.children.map Shape.id := by
    rw [children, List.map_map]
    rfl
  rw [hids, List.pairwise_cons]
  refine ⟨?_, hparts.ascending⟩
  intro id hid
  obtain ⟨s, hs, rfl⟩ := List.mem_map.1 hid
  have hle := (hparts.of_mem hs).1
  omega

theorem mem_below_iff_id (hroot : root.here.Numbered root.id) (ha : a ∈ root.below)
    (hb : b ∈ root.below) : b ∈ a.below ↔ a.id ≤ b.id ∧ b.id < a.id + a.here.size := by
  have hids : a.below.map Place.id = List.range' a.id a.here.size :=
    ids_placesFrom a.here a.above (numbered_of_mem_below hroot ha)
  constructor
  · intro h
    have hmem : b.id ∈ a.below.map Place.id := List.mem_map_of_mem h
    rw [hids, List.mem_range'_1] at hmem
    exact hmem
  · intro h
    have hmem : b.id ∈ a.below.map Place.id := by
      rw [hids, List.mem_range'_1]
      exact h
    obtain ⟨x, hx, hid⟩ := List.mem_map.1 hmem
    rw [← (distinct_of_numbered hroot).eq (below_trans ha hx) hb hid]
    exact hx

theorem child_of_parent? (htop : root.above = []) (hc : c ∈ root.below)
    (h : c.parent? = some p) : p ∈ root.below ∧ c ∈ p.children := by
  have hne : c ≠ root := by
    intro heq
    rw [heq, parent?, htop] at h
    simp at h
  obtain ⟨parent, hparent, hchild⟩ := exists_parent_of_mem_below hc hne
  rw [Branch.parent?_of_mem_children hchild, Option.some.injEq] at h
  exact h ▸ ⟨hparent, hchild⟩

end Place

end Numbers

theorem Place.children_of_isToken {p : Place} (h : p.isToken = true) : p.children = [] := by
  obtain ⟨s, above⟩ := p
  cases s with
  | token label named => rfl
  | node label children => simp [Place.isToken, Shape.isToken] at h

theorem Place.isToken_of_mem_children {p c : Place} (h : c ∈ p.children) : p.isToken = false := by
  cases htoken : p.isToken with
  | false => rfl
  | true =>
    rw [children_of_isToken htoken] at h
    simp at h

theorem Lowered.id_of_get? {source : Source} {cst : Cst} {tree : Tree} {root p : Place} {id : Nat}
    (hl : Lowered source cst tree root) (h : tree.get? id = some p) : p.id = id := by
  rw [Tree.get?, hl.places_eq] at h
  exact Place.id_of_getElem? hl.numbered h

namespace Arena

/-- The arena holds the places from `root` down, each under its number. -/
structure Stores (a : Arena) (root : Place) : Prop where
  top : root.above = []
  numbered : root.here.Numbered 0
  elements : a.elements.toList = root.below.map Place.element

theorem stores_of_lower {text : List Char} {t : Cst} {s : Shape} {after : Nat}
    (h : Java.lower text t none 0 = .ok (s, after)) : (build t).Stores ⟨s, []⟩ where
  top := rfl
  numbered := (numbered_of_lower t h).1
  elements := elements_of_lower h

namespace Stores

variable {a : Arena} {root p q : Place} {id c : Nat}

theorem distinct (h : a.Stores root) : root.Distinct :=
  Place.distinct_of_numbered h.numbered

theorem get?_eq (h : a.Stores root) : a.get? id = root.below[id]?.map Place.element := by
  rw [get?, ← Array.getElem?_toList, h.elements, List.getElem?_map]

theorem get?_id (h : a.Stores root) (hp : p ∈ root.below) : a.get? p.id = some p.element := by
  rw [h.get?_eq, Place.getElem?_id h.numbered hp, Option.map_some]

theorem exists_of_get? {e : Element} (h : a.Stores root) (he : a.get? id = some e) :
    ∃ p ∈ root.below, p.id = id ∧ e = p.element := by
  rw [h.get?_eq, Option.map_eq_some_iff] at he
  obtain ⟨p, hp, rfl⟩ := he
  exact ⟨p, List.mem_of_getElem? hp, Place.id_of_getElem? h.numbered hp, rfl⟩

theorem exists_place (h : a.Stores root) (hid : id < a.size) : ∃ p ∈ root.below, p.id = id := by
  obtain ⟨p, hp, heq, _⟩ := h.exists_of_get? (Array.getElem?_eq_getElem hid)
  exact ⟨p, hp, heq⟩

theorem lt_size (h : a.Stores root) (hp : p ∈ root.below) : p.id < a.size :=
  (Array.getElem?_eq_some_iff.1 (h.get?_id hp)).1

theorem parent?_id (h : a.Stores root) (hp : p ∈ root.below) :
    a.parent? p.id = p.parent?.map Place.id := by
  rw [parent?, h.get?_id hp]
  rfl

theorem children_id (h : a.Stores root) (hp : p ∈ root.below) :
    a.children p.id = p.children.map Place.id := by
  rw [children, h.get?_id hp, Option.elim_some, Place.children_element]

theorem isToken_id (h : a.Stores root) (hp : p ∈ root.below) : a.isToken p.id = p.isToken := by
  rw [isToken, h.get?_id hp, Option.any_some, Place.isToken_element]

theorem exists_of_parent? (h : a.Stores root) (hc : a.parent? c = some id) :
    ∃ q ∈ root.below, q.id = c ∧ ∃ p ∈ root.below, p.id = id ∧ q ∈ p.children := by
  obtain ⟨e, he, _⟩ := Option.bind_eq_some_iff.1 hc
  obtain ⟨q, hq, rfl, _⟩ := h.exists_of_get? he
  rw [h.parent?_id hq, Option.map_eq_some_iff] at hc
  obtain ⟨p, hparent, hid⟩ := hc
  obtain ⟨hp, hchild⟩ := Place.child_of_parent? h.top hq hparent
  exact ⟨q, hq, rfl, p, hp, hid, hchild⟩

theorem exists_of_mem_children (h : a.Stores root) (hc : c ∈ a.children id) :
    ∃ p ∈ root.below, p.id = id ∧ ∃ q ∈ p.children, q.id = c := by
  cases he : a.get? id with
  | none => simp [children, he] at hc
  | some e =>
    obtain ⟨p, hp, rfl, _⟩ := h.exists_of_get? he
    rw [h.children_id hp] at hc
    obtain ⟨q, hq, hid⟩ := List.mem_map.1 hc
    exact ⟨p, hp, rfl, q, hq, hid⟩

theorem numbered_below (h : a.Stores root) (hp : p ∈ root.below) : p.here.Numbered p.id := by
  have hroot : root.here.Numbered root.id := by
    rw [show root.id = 0 from h.numbered.id_eq]
    exact h.numbered
  exact Place.numbered_of_mem_below hroot hp

theorem parent_lt (h : a.Stores root) (hp : p ∈ root.below) (hq : q ∈ p.children) : p.id < q.id :=
  (List.pairwise_cons.1 (Place.ascending_children (h.numbered_below hp))).1 _
    (List.mem_map_of_mem hq)

theorem ancestors_id (h : a.Stores root) (hp : p ∈ root.below) :
    a.ancestors p.id = p.ancestors.map Place.id := by
  obtain ⟨s, above⟩ := p
  induction above generalizing s with
  | nil =>
    rw [ancestors, h.parent?_id hp]
    rfl
  | cons parent above ih =>
    let p : Place := ⟨s, parent :: above⟩
    obtain ⟨hparent, hchild⟩ := Place.child_of_parent? (c := p) (p := ⟨parent, above⟩) h.top hp rfl
    have hlt : Place.id ⟨parent, above⟩ < p.id := h.parent_lt hparent hchild
    have hstored : a.parent? p.id = some (Place.id ⟨parent, above⟩) := h.parent?_id hp
    rw [show Place.mk s (parent :: above) = p from rfl, ancestors, hstored]
    simp only [if_pos hlt, ih parent hparent]
    rfl

theorem isWithin_id (h : a.Stores root) (hp : p ∈ root.below) :
    a.isWithin p.id id = p.isWithin id := by
  rw [isWithin, h.ancestors_id hp, Place.isWithin, Place.lineage, List.any_cons, Bool.eq_iff_iff]
  simp only [Bool.or_eq_true, beq_iff_eq, List.contains_iff_mem, List.mem_map, List.any_eq_true]
  exact or_congr_left eq_comm

theorem reaches_iff (h : a.Stores root) (hp : p ∈ root.below) (hq : q ∈ root.below) :
    Relation.ReflTransGen (fun m n => n ∈ a.children m) p.id q.id ↔ q ∈ p.below := by
  constructor
  · intro hreach
    have hfound : ∃ r ∈ p.below, r.id = q.id := by
      generalize q.id = id at hreach
      induction hreach with
      | refl => exact ⟨p, p.mem_below_self, rfl⟩
      | tail _ hc ih =>
        obtain ⟨r, hr, rfl⟩ := ih
        rw [h.children_id (Place.below_trans hp hr)] at hc
        obtain ⟨c, hchild, hid⟩ := List.mem_map.1 hc
        exact ⟨c, Place.below_trans hr (Place.child_mem_below hchild), hid⟩
    obtain ⟨r, hr, hid⟩ := hfound
    exact h.distinct.eq (Place.below_trans hp hr) hq hid ▸ hr
  · intro hbelow
    induction p using Place.induct with
    | step p ih =>
      cases Place.mem_below_iff.1 hbelow with
      | inl heq => exact heq ▸ .refl
      | inr hpart =>
        obtain ⟨c, hc, hin⟩ := hpart
        have hchild : c.id ∈ a.children p.id := by
          rw [h.children_id hp]
          exact List.mem_map_of_mem hc
        exact .head hchild (ih c hc (Place.below_trans hp (Place.child_mem_below hc)) hin)

end Stores

structure Consistent (a : Arena) : Prop where
  root_eq : a.root = 0
  nonempty : 0 < a.size
  parentless : ∀ id < a.size, a.parent? id = none ↔ id = 0
  parent_iff : ∀ p c, a.parent? c = some p ↔ c ∈ a.children p
  ascending : ∀ p, (p :: a.children p).Pairwise (· < ·)
  /-- All the way up from parent to parent: no number is refused on the way. -/
  ancestors_eq : ∀ id, a.ancestors id =
    (a.parent? id).elim [] fun parent => parent :: a.ancestors parent
  /-- What is below an element is a block of numbers, and lying within the element means to have a
  number of this block. -/
  block : ∀ p < a.size, ∃ stop, ∀ c < a.size,
    (Relation.ReflTransGen (fun m n => n ∈ a.children m) p c ↔ p ≤ c ∧ c < stop) ∧
      (a.isWithin c p = true ↔ p ≤ c ∧ c < stop)
  childless : ∀ id, a.isToken id = true → a.children id = []
  parent_node : ∀ c p, a.parent? c = some p → p < a.size ∧ a.isToken p = false

theorem Stores.parent_iff {a : Arena} {root : Place} (h : a.Stores root) (p c : Nat) :
    a.parent? c = some p ↔ c ∈ a.children p := by
  constructor
  · intro hc
    obtain ⟨q, hq, rfl, parent, hp, rfl, hchild⟩ := h.exists_of_parent? hc
    rw [h.children_id hp]
    exact List.mem_map_of_mem hchild
  · intro hc
    obtain ⟨parent, hp, rfl, q, hchild, rfl⟩ := h.exists_of_mem_children hc
    rw [h.parent?_id (Place.below_trans hp (Place.child_mem_below hchild)),
      Branch.parent?_of_mem_children hchild, Option.map_some]

theorem Stores.consistent {a : Arena} {root : Place} (h : a.Stores root) (hroot : a.root = 0) :
    a.Consistent := by
  have hid : root.id = 0 := h.numbered.id_eq
  refine {
    root_eq := hroot
    nonempty := Nat.lt_of_le_of_lt (Nat.zero_le _) (h.lt_size root.mem_below_self)
    parentless := ?_
    parent_iff := h.parent_iff
    ascending := ?_
    ancestors_eq := ?_
    block := ?_
    childless := ?_
    parent_node := ?_ }
  · intro id hlt
    obtain ⟨p, hp, rfl⟩ := h.exists_place hlt
    rw [h.parent?_id hp, Option.map_eq_none_iff]
    constructor
    · intro hnone
      by_contra hne
      obtain ⟨m, _, hchild⟩ := Place.exists_parent_of_mem_below hp fun heq => hne (heq ▸ hid)
      rw [Branch.parent?_of_mem_children hchild] at hnone
      simp at hnone
    · intro hzero
      rw [h.distinct.eq hp root.mem_below_self (hzero.trans hid.symm), Place.parent?, h.top]
  · intro id
    cases he : a.get? id with
    | none => simp [children, he]
    | some e =>
      obtain ⟨p, hp, rfl, _⟩ := h.exists_of_get? he
      rw [h.children_id hp]
      exact Place.ascending_children (h.numbered_below hp)
  · intro id
    rw [ancestors]
    cases hparent : a.parent? id with
    | none => rfl
    | some parent =>
      obtain ⟨q, _, rfl, p, hp, rfl, hchild⟩ := h.exists_of_parent? hparent
      exact if_pos (h.parent_lt hp hchild)
  · intro id hlt
    obtain ⟨p, hp, rfl⟩ := h.exists_place hlt
    refine ⟨p.id + p.here.size, fun c hc => ?_⟩
    obtain ⟨q, hq, rfl⟩ := h.exists_place hc
    rw [h.reaches_iff hp hq, h.isWithin_id hq, h.distinct.isWithin_iff_mem_below h.top hq hp,
      Place.mem_below_iff_id (h.numbered_below root.mem_below_self) hp hq]
    exact ⟨Iff.rfl, Iff.rfl⟩
  · intro id htoken
    cases he : a.get? id with
    | none => simp [children, he]
    | some e =>
      obtain ⟨p, hp, rfl, _⟩ := h.exists_of_get? he
      rw [h.isToken_id hp] at htoken
      rw [h.children_id hp, Place.children_of_isToken htoken, List.map_nil]
  · intro c id hc
    obtain ⟨q, _, _, p, hp, rfl, hchild⟩ := h.exists_of_parent? hc
    refine ⟨h.lt_size hp, ?_⟩
    rw [h.isToken_id hp]
    exact Place.isToken_of_mem_children hchild

section Numbering

variable {f g : Nat → Nat}

@[simp] theorem size_alloc (a : Arena) (e : Element) : (a.alloc g e).2.size = a.size + 1 :=
  Array.size_push e

@[simp] theorem size_setChildren (a : Arena) (id : Nat) (children : List Nat) :
    (a.setChildren id children).size = a.size :=
  Array.size_modify

@[simp] theorem size_enter (a : Arena) (row id : Nat) : (a.enter row id).size = a.size := rfl

mutual

theorem size_lt_lower (g : Nat → Nat) : ∀ (t : Cst) (parent : Option Nat) (field : Option String)
    (a : Arena), a.size < (lower g t parent field a).2.size
  | .node row index children, parent, field, a => by
    rw [lower]
    split
    · split
      · simp only [size_enter, size_setChildren, size_alloc]
        omega
      · simp only [size_enter, size_alloc]
        omega
    · simp only [size_setChildren]
      refine Nat.lt_of_lt_of_le ?_ (size_le_lowerAll g children _ _)
      rw [size_enter, size_alloc]
      exact Nat.lt_succ_self _

theorem size_le_lowerAll (g : Nat → Nat) : ∀ (trees : List Cst) (parent : Nat) (a : Arena),
    a.size ≤ (lowerAll g trees parent a).2.size
  | [], parent, a => Nat.le_of_eq (by rw [lowerAll])
  | t :: trees, parent, a => by
    rw [lowerAll]
    split
    · split
      · exact size_le_lowerAll g trees parent (a.remark t.span)
      · exact size_le_lowerAll g trees parent a
    · exact Nat.le_trans (Nat.le_of_lt (size_lt_lower g t (some parent) t.row.field a))
        (size_le_lowerAll g trees parent _)

end

theorem alloc_congr {a : Arena} (h : f a.size = g a.size) : a.alloc f = a.alloc g := by
  funext e
  rw [alloc, alloc, h]

mutual

theorem lower_congr : ∀ (t : Cst) (parent : Option Nat) (field : Option String) (a : Arena),
    (∀ n < (lower g t parent field a).2.size, f n = g n) →
      lower f t parent field a = lower g t parent field a
  | .node row index children, parent, field, a, h => by
    have halloc := alloc_congr (h _ (size_lt_lower g _ parent field a))
    rw [lower] at h
    rw [lower, lower]
    by_cases hleaf : children.isEmpty = true
    · rw [if_pos hleaf] at h
      rw [if_pos hleaf, if_pos hleaf]
      by_cases hwrapped : (row.named && !(Kind.ofName row.kind).isFragment) = true
      · rw [if_pos hwrapped] at h
        rw [if_pos hwrapped, if_pos hwrapped]
        simp only [size_enter, size_setChildren, size_alloc] at h
        simp only [halloc]
        rw [alloc_congr (h _ (by rw [size_alloc]; omega))]
      · rw [if_neg hwrapped, if_neg hwrapped]
        simp only [halloc]
    · rw [if_neg hleaf] at h
      rw [if_neg hleaf, if_neg hleaf]
      simp only [size_setChildren] at h
      simp only [halloc, lowerAll_congr children _ _ h]

theorem lowerAll_congr : ∀ (trees : List Cst) (parent : Nat) (a : Arena),
    (∀ n < (lowerAll g trees parent a).2.size, f n = g n) →
      lowerAll f trees parent a = lowerAll g trees parent a
  | [], parent, a, _ => by
    rw [lowerAll, lowerAll]
  | t :: trees, parent, a, h => by
    rw [lowerAll] at h
    rw [lowerAll, lowerAll]
    by_cases hextra : t.row.extra = true
    · rw [if_pos hextra] at h
      rw [if_pos hextra, if_pos hextra]
      by_cases hcomment : "comment".toList.isSuffixOf t.kind.toList = true
      · rw [if_pos hcomment] at h
        rw [if_pos hcomment, if_pos hcomment]
        exact lowerAll_congr trees parent _ h
      · rw [if_neg hcomment] at h
        rw [if_neg hcomment, if_neg hcomment]
        exact lowerAll_congr trees parent a h
    · rw [if_neg hextra] at h
      rw [if_neg hextra, if_neg hextra]
      have hfirst : lower f t (some parent) t.row.field a = lower g t (some parent) t.row.field a :=
        lower_congr t _ _ a fun n hn =>
          h n (Nat.lt_of_lt_of_le hn (size_le_lowerAll g trees parent _))
      simp only [hfirst, lowerAll_congr trees parent _ h]

end

theorem capped_of_lt {n : Nat} (h : n < UInt32.size) : capped n = n :=
  Nat.min_eq_left (Nat.le_sub_one_of_lt h)

theorem buildWith_capped (t : Cst) (h : (build t).size ≤ UInt32.size) :
    buildWith capped t = build t := by
  have hlower : lower capped t none none empty = lower (fun n => n) t none none empty :=
    lower_congr t none none empty fun n hn => capped_of_lt (Nat.lt_of_lt_of_le hn h)
  rw [build, buildWith, buildWith, hlower]

end Numbering

end Arena

end IfCollapse.Java
