import IfCollapse.Branch.Difference
import IfCollapse.Proofs.Order

/-! Comparing two elements finds all that keeps them apart: putting the other side's element at
every difference, or at anything around it, makes the two alike. -/

namespace IfCollapse.Branch

open Java

mutual

/-- The same names and equally many parts all the way down, and the same texts at tokens that are
named or carry their text. -/
def Alike : Shape → Shape → Prop
  | .token a named, .token b _ =>
    a.name = b.name ∧
      (named = true ∨ (Kind.ofName a.name).carriesText = true → a.text = b.text)
  | .node a children, .node b others => a.name = b.name ∧ AlikeAll children others
  | _, _ => False

def AlikeAll : List Shape → List Shape → Prop
  | [], [] => True
  | a :: shapes, b :: others => Alike a b ∧ AlikeAll shapes others
  | _, _ => False

end

theorem alikeAll_iff {shapes others : List Shape} :
    AlikeAll shapes others ↔ shapes.length = others.length ∧
      ∀ (i : Nat) (a b : Shape), shapes[i]? = some a → others[i]? = some b → Alike a b := by
  induction shapes generalizing others with
  | nil => cases others <;> simp [AlikeAll]
  | cons s shapes ih =>
    cases others with
    | nil => simp [AlikeAll]
    | cons t others =>
      rw [AlikeAll, ih]
      constructor
      · rintro ⟨hst, hlen, hrest⟩
        refine ⟨by simp [hlen], ?_⟩
        intro i a b ha hb
        cases i with
        | zero => simp_all
        | succ i => exact hrest i a b ha hb
      · rintro ⟨hlen, hall⟩
        refine ⟨hall 0 s t rfl rfl, by simpa using hlen, ?_⟩
        intro i a b ha hb
        exact hall (i + 1) a b ha hb

theorem Alike.refl (s : Shape) : Alike s s := by
  induction s with
  | token label named => exact ⟨rfl, fun _ => rfl⟩
  | node label children ih =>
    refine ⟨rfl, alikeAll_iff.2 ⟨rfl, ?_⟩⟩
    intro i a b ha hb
    rw [ha] at hb
    cases hb
    exact ih a (List.mem_of_getElem? ha)

mutual

/-- Puts other elements in the place of those whose numbers have one assigned. -/
def graft (others : Nat → Option Shape) : Shape → Shape
  | .token label named => (others label.id).getD (.token label named)
  | .node label children =>
    match others label.id with
    | some other => other
    | none => .node label (graftAll others children)

def graftAll (others : Nat → Option Shape) : List Shape → List Shape
  | [] => []
  | s :: shapes => graft others s :: graftAll others shapes

end

theorem graftAll_eq (others : Nat → Option Shape) (shapes : List Shape) :
    graftAll others shapes = shapes.map (graft others) := by
  induction shapes with
  | nil => rfl
  | cons s shapes ih => rw [graftAll, ih, List.map_cons]

theorem graft_of_some {others : Nat → Option Shape} {s t : Shape} (h : others s.id = some t) :
    graft others s = t := by
  cases s with
  | token label named =>
    change others label.id = some t at h
    simp [graft, h]
  | node label children =>
    change others label.id = some t at h
    simp [graft, h]

theorem graft_node_of_none {others : Nat → Option Shape} {label : Label} {children : List Shape}
    (h : others label.id = none) :
    graft others (.node label children) = .node label (children.map (graft others)) := by
  rw [graft, h, graftAll_eq]

theorem label_graft {others : Nat → Option Shape} {s : Shape} (h : others s.id = none) :
    (graft others s).label = s.label := by
  cases s with
  | token label named =>
    change others label.id = none at h
    simp [graft, h]
  | node label children =>
    change others label.id = none at h
    rw [graft_node_of_none h]
    rfl

theorem exists_of_assigned {α : Type} {items : List α} {number : α → Nat} {value : α → Shape}
    {id : Nat} {z : Shape} (h : (items.find? (number · == id)).map value = some z) :
    ∃ a ∈ items, number a = id ∧ z = value a := by
  rw [Option.map_eq_some_iff] at h
  obtain ⟨a, ha, rfl⟩ := h
  have hid := List.find?_some ha
  exact ⟨a, List.mem_of_find?_eq_some ha, by simpa using hid, rfl⟩

theorem assigned_ne_none {α : Type} {items : List α} {number : α → Nat} {value : α → Shape} {a : α}
    (ha : a ∈ items) : (items.find? (number · == number a)).map value ≠ none := by
  intro hnone
  rw [Option.map_eq_none_iff, List.find?_eq_none] at hnone
  exact hnone a ha (by simp)

theorem graft_eq_self {others : Nat → Option Shape} (p : Place)
    (h : ∀ q ∈ p.below, ∀ s, others q.id = some s → s = q.here) :
    graft others p.here = p.here := by
  induction p using Place.induct with
  | step p ih =>
    cases hp : others p.id with
    | some s => rw [graft_of_some hp, h p p.mem_below_self s hp]
    | none =>
      obtain ⟨s, above⟩ := p
      cases s with
      | token label named =>
        change others label.id = none at hp
        simp [graft, hp]
      | node label children =>
        have hgraft : graft others (.node label children) =
            .node label (children.map (graft others)) := graft_node_of_none hp
        change graft others (.node label children) = .node label children
        rw [hgraft]
        congr 1
        conv_rhs => rw [← List.map_id children]
        apply List.map_congr_left
        intro s hs
        have hc : (⟨s, .node label children :: above⟩ : Place) ∈
            Place.children ⟨.node label children, above⟩ := List.mem_map_of_mem hs
        exact ih _ hc fun q hq => h q (Place.mem_below_of_child hc hq)

abbrev compareAt (p q : Place) : Option (List Difference) :=
  compare p.above p.here q.above q.here

theorem compareAll_cases {above above' : List Shape} {shapes others : List Shape}
    {ds : List Difference} (h : compareAll above shapes above' others = some ds) :
    (∀ (i : Nat) (a b : Shape), shapes[i]? = some a → others[i]? = some b →
        ∃ part, compare above a above' b = some part ∧ ∀ d ∈ part, d ∈ ds) ∧
      ∀ d ∈ ds, ∃ (i : Nat) (a b : Shape) (part : List Difference), shapes[i]? = some a ∧
        others[i]? = some b ∧ compare above a above' b = some part ∧ d ∈ part := by
  induction shapes generalizing others ds with
  | nil =>
    rw [compareAll.eq_def] at h
    simp at h
    simp [h]
  | cons s shapes ih =>
    cases others with
    | nil =>
      rw [compareAll.eq_def] at h
      simp at h
      simp [h]
    | cons t others =>
      rw [compareAll] at h
      cases hc : compare above s above' t with
      | none => simp [hc] at h
      | some part =>
        simp only [hc] at h
        cases hr : compareAll above shapes above' others with
        | none => simp [hr] at h
        | some more =>
          simp only [hr, Option.some.injEq] at h
          subst h
          obtain ⟨hall, hmem⟩ := ih hr
          constructor
          · intro i a b ha hb
            cases i with
            | zero =>
              simp only [List.getElem?_cons_zero, Option.some.injEq] at ha hb
              subst ha hb
              exact ⟨part, hc, fun d hd => List.mem_append_left _ hd⟩
            | succ i =>
              obtain ⟨part', hpart', hsub⟩ := hall i a b ha hb
              exact ⟨part', hpart', fun d hd => List.mem_append_right _ (hsub d hd)⟩
          · intro d hd
            rcases List.mem_append.1 hd with hd | hd
            · exact ⟨0, s, t, part, rfl, rfl, hc, hd⟩
            · obtain ⟨i, a, b, part', ha, hb, hpart', hd'⟩ := hmem d hd
              exact ⟨i + 1, a, b, part', ha, hb, hpart', hd'⟩

theorem compareAt_cases {p q : Place} {ds : List Difference} (h : compareAt p q = some ds) :
    (p.id = q.id ∧ ds = []) ∨
      (p.isToken = true ∧ q.isToken = true ∧ Alike p.here q.here ∧ ds = []) ∨
      (p.isToken = false ∧ q.isToken = false ∧ ds = [⟨p, q⟩] ∧
        (p.here.name ≠ q.here.name ∨ p.here.children.length ≠ q.here.children.length ∨
          compareAll p.line p.here.children q.line q.here.children = none)) ∨
      (p.isToken = false ∧ q.isToken = false ∧ p.here.name = q.here.name ∧
        p.here.children.length = q.here.children.length ∧
        compareAll p.line p.here.children q.line q.here.children = some ds) := by
  obtain ⟨s, above⟩ := p
  obtain ⟨t, above'⟩ := q
  change compare above s above' t = some ds at h
  rw [compare.eq_def] at h
  cases s with
  | token a named =>
    simp only at h
    split at h
    · rename_i hid
      exact Or.inl ⟨hid, by simpa using h.symm⟩
    · cases t with
      | node b others => simp at h
      | token b other =>
        simp only [Option.ite_none_right_eq_some, Option.some.injEq] at h
        obtain ⟨hsame, hds⟩ := h
        refine Or.inr (Or.inl ⟨rfl, rfl, ?_, hds.symm⟩)
        simp only [sameToken, Bool.and_eq_true, beq_iff_eq, Bool.or_eq_true,
          Bool.not_eq_true'] at hsame
        refine ⟨hsame.1, ?_⟩
        intro hcarries
        rcases hsame.2 with hno | htext
        · rcases hcarries with hc | hc <;> simp [hc] at hno
        · exact htext
  | node a children =>
    simp only at h
    split at h
    · rename_i hid
      exact Or.inl ⟨hid, by simpa using h.symm⟩
    · cases t with
      | token b other => simp at h
      | node b others =>
        simp only at h
        split at h
        · rename_i hdiffer
          refine Or.inr (Or.inr (Or.inl ⟨rfl, rfl, by simpa using h.symm, ?_⟩))
          exact hdiffer.imp_right Or.inl
        · rename_i hsame
          simp only [ne_eq, not_or, Decidable.not_not] at hsame
          split at h
          · rename_i ds' hds
            simp only [Option.some.injEq] at h
            subst h
            exact Or.inr (Or.inr (Or.inr ⟨rfl, rfl, hsame.1, hsame.2, hds⟩))
          · rename_i hnone
            exact Or.inr (Or.inr (Or.inl
              ⟨rfl, rfl, by simpa using h.symm, Or.inr (Or.inr hnone)⟩))

theorem compareAll_children {p q : Place} {ds : List Difference}
    (h : compareAll p.line p.here.children q.line q.here.children = some ds) :
    (∀ (i : Nat) (c d : Place), p.children[i]? = some c → q.children[i]? = some d →
        ∃ part, compareAt c d = some part ∧ ∀ x ∈ part, x ∈ ds) ∧
      ∀ x ∈ ds, ∃ (i : Nat) (c d : Place) (part : List Difference), p.children[i]? = some c ∧
        q.children[i]? = some d ∧ compareAt c d = some part ∧ x ∈ part := by
  obtain ⟨hall, hmem⟩ := compareAll_cases h
  simp only [Place.children, List.getElem?_map, Option.map_eq_some_iff]
  constructor
  · rintro i _ _ ⟨s, hs, rfl⟩ ⟨t, ht, rfl⟩
    exact hall i s t hs ht
  · intro x hx
    obtain ⟨i, a, b, part, ha, hb, hpart, hx'⟩ := hmem x hx
    exact ⟨i, _, _, part, ⟨a, ha, rfl⟩, ⟨b, hb, rfl⟩, hpart, hx'⟩

theorem descend_of_mem_compare {p q : Place} {ds : List Difference} {d : Difference}
    (h : compareAt p q = some ds) (hd : d ∈ ds) :
    ∃ path, p.descend path = some d.before ∧ q.descend path = some d.after := by
  induction p using Place.induct generalizing q ds with
  | step p ih =>
    rcases compareAt_cases h with ⟨_, rfl⟩ | ⟨_, _, _, rfl⟩ | ⟨_, _, rfl, _⟩ | ⟨_, _, _, _, hall⟩
    · simp at hd
    · simp at hd
    · simp only [List.mem_singleton] at hd
      subst hd
      exact ⟨[], rfl, rfl⟩
    · obtain ⟨i, c, c', part, hc, hc', hpart, hd'⟩ := (compareAll_children hall).2 d hd
      obtain ⟨path, hb, ha⟩ := ih c (List.mem_of_getElem? hc) hpart hd'
      exact ⟨i :: path, Place.descend_cons.2 ⟨c, hc, hb⟩, Place.descend_cons.2 ⟨c', hc', ha⟩⟩

theorem before_mem_below {p q : Place} {ds : List Difference} {d : Difference}
    (h : compareAt p q = some ds) (hd : d ∈ ds) : d.before ∈ p.below := by
  obtain ⟨path, hb, _⟩ := descend_of_mem_compare h hd
  exact Place.mem_below_of_descend hb

theorem mem_part_of_mem_below {p q c c' : Place} {i : Nat} {ds part : List Difference}
    {d : Difference} (hdist : p.Distinct)
    (h : compareAll p.line p.here.children q.line q.here.children = some ds)
    (hc : p.children[i]? = some c) (hc' : q.children[i]? = some c')
    (hpart : compareAt c c' = some part) (hd : d ∈ ds) (hin : d.before ∈ c.below) : d ∈ part := by
  obtain ⟨j, b, b', part', hb, hb', hpart', hd'⟩ := (compareAll_children h).2 d hd
  have hij : i = j := hdist.child_eq hc hb hin (before_mem_below hpart' hd')
  subst hij
  rw [hc] at hb
  rw [hc'] at hb'
  cases hb
  cases hb'
  rw [hpart] at hpart'
  cases hpart'
  exact hd'

theorem difference_eq_of_mem_below {p q : Place} {ds : List Difference} {d e : Difference}
    (hdist : p.Distinct) (h : compareAt p q = some ds) (hd : d ∈ ds) (he : e ∈ ds)
    (hin : e.before ∈ d.before.below) : d = e := by
  induction p using Place.induct generalizing q ds with
  | step p ih =>
    rcases compareAt_cases h with ⟨_, rfl⟩ | ⟨_, _, _, rfl⟩ | ⟨_, _, rfl, _⟩ | ⟨_, _, _, _, hall⟩
    · simp at hd
    · simp at hd
    · simp only [List.mem_singleton] at hd he
      rw [hd, he]
    · obtain ⟨i, c, c', part, hc, hc', hpart, hd'⟩ := (compareAll_children hall).2 d hd
      have hin' := Place.below_trans (before_mem_below hpart hd') hin
      have he' := mem_part_of_mem_below hdist hall hc hc' hpart he hin'
      have hmem := List.mem_of_getElem? hc
      exact ih c hmem (hdist.child hmem) hpart hd' he'

theorem alike_of_children {p q : Place} {others : Nat → Option Shape} (hp : p.isToken = false)
    (hq : q.isToken = false) (hname : p.here.name = q.here.name)
    (hlen : p.here.children.length = q.here.children.length) (hnone : others p.id = none)
    (h : ∀ (i : Nat) (c d : Place), p.children[i]? = some c → q.children[i]? = some d →
      Alike (graft others c.here) d.here) : Alike (graft others p.here) q.here := by
  obtain ⟨s, above⟩ := p
  obtain ⟨t, above'⟩ := q
  cases s with
  | token a named => simp [Place.isToken, Shape.isToken] at hp
  | node a shapes =>
    cases t with
    | token b named => simp [Place.isToken, Shape.isToken] at hq
    | node b shapes' =>
      have hgraft : graft others (.node a shapes) = .node a (shapes.map (graft others)) :=
        graft_node_of_none hnone
      change Alike (graft others (.node a shapes)) (.node b shapes')
      rw [hgraft]
      refine ⟨hname, alikeAll_iff.2 ⟨by rw [List.length_map]; exact hlen, ?_⟩⟩
      intro i x y hx hy
      rw [List.getElem?_map, Option.map_eq_some_iff] at hx
      obtain ⟨s, hs, rfl⟩ := hx
      apply h i ⟨s, .node a shapes :: above⟩ ⟨y, .node b shapes' :: above'⟩
      · simp [Place.children, Shape.children, hs]
      · simp [Place.children, Shape.children, hy]

/-- Let every assigned element be the one at the same path on the other side, let each difference
lie inside an element that has one assigned, and let each such element hold a difference. Then the
element with all this put in place is alike the other one. -/
theorem alike_graft {root p q : Place} {ds : List Difference} {others : Nat → Option Shape}
    (hroot : root.Distinct) (hp : p ∈ root.below) (hq : q ∈ root.below)
    (h : compareAt p q = some ds)
    (haligned : ∀ path x y z, p.descend path = some x → q.descend path = some y →
      others x.id = some z → z = y.here)
    (hcover : ∀ d ∈ ds, ∃ x ∈ p.below, d.before ∈ x.below ∧ others x.id ≠ none)
    (htight : ∀ x ∈ p.below, others x.id ≠ none → ∃ d ∈ ds, d.before ∈ x.below) :
    Alike (graft others p.here) q.here := by
  induction p using Place.induct generalizing q ds with
  | step p ih =>
    cases hσ : others p.id with
    | some z =>
      rw [graft_of_some hσ, haligned [] p q z rfl rfl hσ]
      exact Alike.refl _
    | none =>
      have hself : ds = [] → graft others p.here = p.here := by
        intro hnil
        apply graft_eq_self p
        intro x hx s hs
        obtain ⟨d, hd, _⟩ := htight x hx (by simp [hs])
        rw [hnil] at hd
        simp at hd
      rcases compareAt_cases h with ⟨hid, hnil⟩ | ⟨_, _, halike, hnil⟩ | ⟨_, _, rfl, _⟩ |
        ⟨hpn, hqn, hname, hlen, hall⟩
      · rw [hself hnil, hroot.eq hp hq hid]
        exact Alike.refl _
      · rw [hself hnil]
        exact halike
      · obtain ⟨x, hx, hpx, hsome⟩ := hcover ⟨p, q⟩ (by simp)
        rw [← Place.below_antisymm hx hpx] at hsome
        exact absurd hσ hsome
      · have hdist := hroot.of_mem_below hp
        apply alike_of_children hpn hqn hname hlen hσ
        intro i c c' hc hc'
        obtain ⟨part, hpart, hsub⟩ := (compareAll_children hall).1 i c c' hc hc'
        have hmem := List.mem_of_getElem? hc
        have hpc := Place.below_trans hp (Place.child_mem_below hmem)
        have hqc := Place.below_trans hq (Place.child_mem_below (List.mem_of_getElem? hc'))
        apply ih c hmem hpc hqc hpart
        · intro path x y z hx hy
          exact haligned (i :: path) x y z (Place.descend_cons.2 ⟨c, hc, hx⟩)
            (Place.descend_cons.2 ⟨c', hc', hy⟩)
        · intro d hd
          obtain ⟨x, hx, hdx, hsome⟩ := hcover d (hsub d hd)
          rcases Place.mem_below_iff.1 hx with rfl | ⟨b, hb, hxb⟩
          · exact absurd hσ hsome
          · obtain ⟨j, hj⟩ := List.getElem?_of_mem hb
            have hij : i = j := hdist.child_eq hc hj (before_mem_below hpart hd)
              (Place.below_trans hxb hdx)
            subst hij
            rw [hc] at hj
            cases hj
            exact ⟨x, hxb, hdx, hsome⟩
        · intro x hx hsome
          obtain ⟨d, hd, hdx⟩ := htight x (Place.mem_below_of_child hmem hx) hsome
          have hin := Place.below_trans hx hdx
          exact ⟨d, mem_part_of_mem_below hdist hall hc hc' hpart hd hin, hdx⟩

end IfCollapse.Branch
