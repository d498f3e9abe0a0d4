import IfCollapse.Proofs.Faultless
import IfCollapse.Proofs.Lookup

/-! Lowering a part of a tree. What is lowered from a node alone is found again, with its numbers
raised by a constant, in what is lowered from a node above it. -/

namespace IfCollapse.Java

mutual

def Shape.shift (k : Nat) : Shape → Shape
  | .token label named => .token { label with id := label.id + k } named
  | .node label children => .node { label with id := label.id + k } (Shape.shiftAll k children)

def Shape.shiftAll (k : Nat) : List Shape → List Shape
  | [] => []
  | s :: shapes => s.shift k :: Shape.shiftAll k shapes

end

def Shape.withField (field : Option String) : Shape → Shape
  | .token label named => .token { label with field := field } named
  | .node label children => .node { label with field := field } children

namespace Place

def liftLine (base : Place) : List Shape → List Shape
  | [] => base.above
  | [root] => (root.shift base.id).withField base.field :: base.above
  | s :: t :: line => s.shift base.id :: liftLine base (t :: line)

/-- A place of a tree as a place of a larger one in which its root stands at `base`. All numbers are
raised by that of `base`, and the root has the role and the ancestors of `base`. -/
def lift (base q : Place) : Place :=
  match q.above with
  | [] => ⟨(q.here.shift base.id).withField base.field, base.above⟩
  | _ :: _ => ⟨q.here.shift base.id, liftLine base q.above⟩

end Place

section Shift

variable {k : Nat} {field : Option String}

theorem Shape.shiftAll_eq (k : Nat) (shapes : List Shape) :
    Shape.shiftAll k shapes = shapes.map (Shape.shift k) := by
  induction shapes with
  | nil => rfl
  | cons s shapes ih => rw [Shape.shiftAll, ih, List.map_cons]

@[simp] theorem Shape.label_shift (s : Shape) :
    (s.shift k).label = { s.label with id := s.label.id + k } := by
  cases s <;> rfl

@[simp] theorem Shape.children_shift (s : Shape) :
    (s.shift k).children = s.children.map (Shape.shift k) := by
  cases s with
  | token label named => rfl
  | node label children => exact Shape.shiftAll_eq k children

@[simp] theorem Shape.isToken_shift (s : Shape) : (s.shift k).isToken = s.isToken := by
  cases s <;> rfl

@[simp] theorem Shape.id_shift (s : Shape) : (s.shift k).id = s.id + k := by
  cases s <;> rfl

@[simp] theorem Shape.kind_shift (s : Shape) : (s.shift k).kind = s.kind := by
  cases s <;> rfl

@[simp] theorem Shape.field_shift (s : Shape) : (s.shift k).field = s.field := by
  cases s <;> rfl

theorem Shape.childByField?_shift (s : Shape) (role : String) :
    (s.shift k).childByField? role = (s.childByField? role).map (Shape.shift k) := by
  have hrole : (fun t : Shape => decide (t.field = some role)) ∘ Shape.shift k =
      fun t => decide (t.field = some role) := by
    funext t
    rw [Function.comp, Shape.field_shift]
  rw [Shape.childByField?, Shape.children_shift, List.find?_map, hrole]
  rfl

@[simp] theorem Shape.label_withField (s : Shape) :
    (s.withField field).label = { s.label with field := field } := by
  cases s <;> rfl

@[simp] theorem Shape.children_withField (s : Shape) :
    (s.withField field).children = s.children := by
  cases s <;> rfl

@[simp] theorem Shape.isToken_withField (s : Shape) :
    (s.withField field).isToken = s.isToken := by
  cases s <;> rfl

theorem Shape.withField_eq_self {s : Shape} (h : s.field = field) : s.withField field = s := by
  subst h
  cases s <;> rfl

end Shift

namespace Place

variable {base q c : Place}

theorem lift_cases (base q : Place) :
    (q.above = [] ∧ base.lift q = ⟨(q.here.shift base.id).withField base.field, base.above⟩) ∨
      (q.above ≠ [] ∧ base.lift q = ⟨q.here.shift base.id, liftLine base q.above⟩) := by
  obtain ⟨s, above⟩ := q
  cases above <;> simp [lift]

theorem lift_of_above (h : q.above ≠ []) :
    base.lift q = ⟨q.here.shift base.id, liftLine base q.above⟩ := by
  obtain ⟨s, above⟩ := q
  cases above with
  | nil => exact absurd rfl h
  | cons t above => rfl

theorem liftLine_cons {s : Shape} {line : List Shape} (h : line ≠ []) :
    liftLine base (s :: line) = s.shift base.id :: liftLine base line := by
  cases line with
  | nil => exact absurd rfl h
  | cons t line => rfl

@[simp] theorem line_lift : (base.lift q).line = liftLine base q.line := by
  obtain ⟨s, above⟩ := q
  cases above <;> rfl

@[simp] theorem id_lift : (base.lift q).id = q.id + base.id := by
  rcases lift_cases base q with ⟨_, h⟩ | ⟨_, h⟩ <;> rw [h] <;> simp [Place.id, Shape.id]

@[simp] theorem name_lift : (base.lift q).here.name = q.here.name := by
  rcases lift_cases base q with ⟨_, h⟩ | ⟨_, h⟩ <;> rw [h] <;> simp [Shape.name]

@[simp] theorem kind_lift : (base.lift q).kind = q.kind :=
  congrArg Kind.ofName name_lift

@[simp] theorem span_lift : (base.lift q).span = q.span := by
  rcases lift_cases base q with ⟨_, h⟩ | ⟨_, h⟩ <;> rw [h] <;> simp [Place.span, Shape.span]

@[simp] theorem isToken_lift : (base.lift q).isToken = q.isToken := by
  rcases lift_cases base q with ⟨_, h⟩ | ⟨_, h⟩ <;> rw [h] <;> simp [Place.isToken]

theorem field_lift (h : q.above ≠ []) : (base.lift q).field = q.field := by
  rw [lift_of_above h]
  exact Shape.field_shift q.here

theorem children_lift : (base.lift q).children = q.children.map base.lift := by
  have hline : (base.lift q).line = liftLine base q.line := line_lift
  have hhere : (base.lift q).here.children = q.here.children.map (Shape.shift base.id) := by
    rcases lift_cases base q with ⟨_, h⟩ | ⟨_, h⟩ <;> rw [h] <;> simp
  rw [children, hhere, List.map_map, children, List.map_map]
  refine List.map_congr_left fun s _ => ?_
  have hchild : (⟨s, q.line⟩ : Place).above ≠ [] := by simp [line]
  change Place.mk (s.shift base.id) (base.lift q).line = base.lift ⟨s, q.line⟩
  rw [hline, lift_of_above hchild]

theorem above_ne_nil_of_mem_children (h : c ∈ q.children) : c.above ≠ [] := by
  obtain ⟨s, _, rfl⟩ := List.mem_map.1 h
  simp

theorem exists_parent_of_mem_below {p : Place} (hq : q ∈ p.below) (hne : q ≠ p) :
    ∃ m ∈ p.below, q ∈ m.children := by
  induction p using Place.induct with
  | step p ih =>
    cases mem_below_iff.1 hq with
    | inl heq => exact absurd heq hne
    | inr hpart =>
      obtain ⟨c, hc, hqc⟩ := hpart
      by_cases heq : q = c
      · subst heq
        exact ⟨p, p.mem_below_self, hc⟩
      · obtain ⟨m, hm, hmq⟩ := ih c hc hqc heq
        exact ⟨m, mem_below_of_child hc hm, hmq⟩

theorem above_of_mem_children {p c : Place} (h : c ∈ p.children) : c.above = p.line := by
  obtain ⟨s, _, rfl⟩ := List.mem_map.1 h
  rfl

theorem above_lift_of_mem_children {p c : Place} (h : c ∈ p.children) :
    (base.lift c).above = (base.lift p).line := by
  rw [lift_of_above (above_ne_nil_of_mem_children h), line_lift,
    above_of_mem_children h]

theorem below_lift : (base.lift q).below = q.below.map base.lift := by
  induction q using Place.induct with
  | step q ih =>
    rw [below_eq, children_lift, List.flatMap_map, below_eq q, List.map_cons, List.map_flatMap]
    rw [List.flatMap_congr fun c hc => ih c hc]

theorem parent?_lift (h : q.above ≠ []) : (base.lift q).parent? = q.parent?.map base.lift := by
  obtain ⟨s, above⟩ := q
  cases above with
  | nil => exact absurd rfl h
  | cons t above =>
    cases above <;> rfl

theorem childByField?_lift (field : String) :
    (base.lift q).childByField? field = (q.childByField? field).map base.lift := by
  have hfind : ∀ places : List Place, (∀ c ∈ places, c.above ≠ []) →
      (places.map base.lift).find? (·.field = some field) =
        (places.find? (·.field = some field)).map base.lift := by
    intro places hplaces
    induction places with
    | nil => rfl
    | cons c places ih =>
      have hfield : (base.lift c).field = c.field := field_lift (hplaces c List.mem_cons_self)
      rw [List.map_cons, List.find?_cons, List.find?_cons, hfield,
        ih fun d hd => hplaces d (List.mem_cons_of_mem c hd)]
      split <;> rfl
  rw [childByField?, childByField?, children_lift]
  exact hfind q.children fun c hc => above_ne_nil_of_mem_children hc

end Place

section Lower

variable {source : List Char} {k : Nat}

theorem field_of_lower {t : Cst} {field : Option String} {next after : Nat} {s : Shape}
    (h : lower source t field next = .ok (s, after)) : s.field = field := by
  obtain ⟨row, index, children⟩ := t
  obtain ⟨text, _, hs⟩ := lower_cases h
  rcases hs with ⟨_, _, _, rfl, _⟩ | ⟨_, _, rfl, _⟩ | ⟨_, shapes, _, rfl⟩ <;> rfl

mutual

/-- The number at which lowering starts is added to every number, and the role is that of the root
alone. -/
theorem lower_shift : ∀ (t : Cst) (role : Option String) {field : Option String} {next after : Nat}
    {s : Shape}, lower source t field next = .ok (s, after) →
      lower source t role (next + k) = .ok ((s.shift k).withField role, after + k)
  | .node row index children, role, field, next, after, s, h => by
    obtain ⟨text, htext, hs⟩ := lower_cases h
    rw [lower]
    simp only [htext, bind, Except.bind, pure, Except.pure]
    rcases hs with ⟨rfl, hnamed, hfragment, rfl, rfl⟩ | ⟨rfl, hplain, rfl, rfl⟩ |
      ⟨hchildren, shapes, hall, rfl⟩
    · simp [hnamed, hfragment, Shape.shift, Shape.shiftAll, Shape.withField, Nat.add_right_comm]
    · have hleaf : (row.named && !(Kind.ofName row.kind).isFragment) = false := by
        cases hplain with
        | inl hn => simp [hn]
        | inr hf => simp [hf]
      simp [hleaf, Shape.shift, Shape.withField, Nat.add_right_comm]
    · have hrest := lowerAll_shift children hall
      rw [Nat.add_right_comm] at hrest
      simp [hchildren, hrest, Shape.shift, Shape.withField, Shape.shiftAll_eq]

theorem lowerAll_shift : ∀ (trees : List Cst) {next after : Nat} {shapes : List Shape},
    lowerAll source trees next = .ok (shapes, after) →
      lowerAll source trees (next + k) = .ok (shapes.map (Shape.shift k), after + k)
  | [], next, after, shapes, h => by
    simp only [lowerAll, Except.ok.injEq, Prod.mk.injEq] at h ⊢
    obtain ⟨rfl, rfl⟩ := h
    simp
  | t :: trees, next, after, shapes, h => by
    rcases lowerAll_cases h with ⟨hextra, hrest⟩ | ⟨hextra, s, middle, rest, hs, hrest, rfl⟩
    · rw [lowerAll, if_pos hextra]
      exact lowerAll_shift trees hrest
    · have hfirst := lower_shift t t.row.field hs
      have hfield : (s.shift k).field = t.row.field := by
        rw [Shape.field_shift, field_of_lower hs]
      rw [Shape.withField_eq_self hfield] at hfirst
      rw [lowerAll]
      simp [hextra, hfirst, lowerAll_shift trees hrest, bind, Except.bind, pure, Except.pure]

end

theorem lift_root {t : Cst} {base : Place} {root : Shape} {role : Option String} {n m after : Nat}
    (hbase : lower source t role n = .ok (base.here, m))
    (hroot : lower source t none 0 = .ok (root, after)) : base.lift ⟨root, []⟩ = base := by
  have hid : base.id = n := by
    have hnumbered := (numbered_of_lower t hbase).1
    obtain ⟨s, above⟩ := base
    cases s with
    | token label named => exact hnumbered
    | node label children => exact hnumbered.1
  have hfield : base.field = role := field_of_lower hbase
  have hshift := lower_shift (k := n) t role hroot
  rw [Nat.zero_add, hbase, Except.ok.injEq, Prod.mk.injEq] at hshift
  change Place.mk ((root.shift base.id).withField base.field) base.above = base
  rw [hid, hfield, ← hshift.1]

end Lower

section Reaching

theorem Cst.preorder_eq (t : Cst) : t.preorder = t :: Cst.preorderAll t.children := by
  obtain ⟨row, index, children⟩ := t
  rfl

theorem Cst.preorderAll_eq (trees : List Cst) :
    Cst.preorderAll trees = trees.flatMap Cst.preorder := by
  induction trees with
  | nil => rfl
  | cons t trees ih => rw [Cst.preorderAll, ih, List.flatMap_cons]

theorem Cst.preorder_sublist_preorderAll {c : Cst} {trees : List Cst} (hc : c ∈ trees) :
    c.preorder.Sublist (Cst.preorderAll trees) := by
  rw [Cst.preorderAll_eq, List.flatMap_def]
  exact List.sublist_flatten_of_mem (List.mem_map_of_mem hc)

theorem Cst.preorder_sublist_of_child {t c : Cst} (hc : c ∈ t.children) :
    c.preorder.Sublist t.preorder := by
  rw [t.preorder_eq]
  exact (Cst.preorder_sublist_preorderAll hc).cons t

mutual

theorem of_mem_preorder {P : Cst → Prop} (hered : ∀ t, P t → ∀ c ∈ t.children, P c) :
    ∀ {t u : Cst}, P t → u ∈ t.preorder → P u
  | .node row index children, u, ht, hu => by
    rw [Cst.preorder, List.mem_cons] at hu
    cases hu with
    | inl heq => rwa [heq]
    | inr hmem => exact of_mem_preorderAll hered (hered _ ht) hmem

theorem of_mem_preorderAll {P : Cst → Prop} (hered : ∀ t, P t → ∀ c ∈ t.children, P c) :
    ∀ {trees : List Cst} {u : Cst}, (∀ t ∈ trees, P t) → u ∈ Cst.preorderAll trees → P u
  | [], u, _, hu => by simp [Cst.preorderAll] at hu
  | t :: trees, u, h, hu => by
    rw [Cst.preorderAll, List.mem_append] at hu
    cases hu with
    | inl hfirst => exact of_mem_preorder hered (h t List.mem_cons_self) hfirst
    | inr hrest =>
      exact of_mem_preorderAll hered (fun v hv => h v (List.mem_cons_of_mem t hv)) hrest

end

theorem Cst.Reaches.mem_preorder {t u : Cst} (h : t.Reaches u) : u ∈ t.preorder := by
  induction h with
  | here t =>
    rw [t.preorder_eq]
    exact List.mem_cons_self
  | part hc _ _ ih => exact (Cst.preorder_sublist_of_child hc).subset ih

theorem Cst.preorder_sublist {t u : Cst} (h : u ∈ t.preorder) : u.preorder.Sublist t.preorder :=
  of_mem_preorder (P := fun v => v.preorder.Sublist t.preorder)
    (fun _ hv _ hc => (Cst.preorder_sublist_of_child hc).trans hv) (List.Sublist.refl _) h

end Reaching

section Rows

theorem indices_forest (rows : List Row) (first : Nat) :
    (Cst.preorderAll (Cst.forest rows first)).map Cst.index = List.range' first rows.length := by
  induction rows generalizing first with
  | nil => rfl
  | cons row rows ih =>
    have hlater := ih (first + 1)
    rw [Cst.preorderAll_eq] at hlater ⊢
    rw [Cst.forest, Cst.adopt, List.flatMap_cons, Cst.preorder_eq, Cst.preorderAll_eq,
      List.cons_append, ← List.flatMap_append]
    change first ::
      ((List.takeWhile _ _ ++ List.dropWhile _ _).flatMap Cst.preorder).map Cst.index = _
    rw [List.takeWhile_append_dropWhile, hlater, List.length_cons, List.range'_succ]

theorem nodup_of_ofRows? {rows : List Row} {t : Cst} (h : Cst.ofRows? rows = some t) :
    (t.preorder.map Cst.index).Nodup := by
  have hall := indices_forest rows 0
  have hsub : t.preorder.Sublist (Cst.preorderAll (Cst.forest rows 0)) :=
    Cst.preorder_sublist_preorderAll (List.mem_of_head? h)
  have hnodup : (List.range' 0 rows.length).Nodup := List.nodup_range'
  rw [← hall] at hnodup
  exact hnodup.sublist (hsub.map Cst.index)

mutual

theorem rows_sublist : ∀ (t : Cst) (p : Place),
    ((tagged t p).filterMap (·.2)).Sublist (t.preorder.map Cst.index)
  | .node row index [], p => by
    rw [tagged_leaf, List.filterMap_cons, List.filterMap_map]
    simp [Cst.preorder, Cst.preorderAll, Cst.index]
  | .node row index (c :: children), p => by
    rw [tagged_node (by simp), Cst.preorder, List.map_cons]
    exact (rows_sublistAll (c :: children) p.children).cons_cons index

theorem rows_sublistAll : ∀ (trees : List Cst) (places : List Place),
    ((taggedAll trees places).filterMap (·.2)).Sublist ((Cst.preorderAll trees).map Cst.index)
  | [], places => by simp [taggedAll]
  | t :: trees, places => by
    rw [Cst.preorderAll, List.map_append]
    cases hextra : t.row.extra with
    | true =>
      rw [taggedAll_of_extra hextra]
      exact (rows_sublistAll trees places).trans (List.sublist_append_right _ _)
    | false =>
      cases places with
      | nil => simp [taggedAll, hextra]
      | cons p places =>
        rw [taggedAll_cons hextra, List.filterMap_append]
        exact (rows_sublist t p).append (rows_sublistAll trees places)

end

end Rows

namespace Place

variable {root base q : Place}

theorem below_split (h : base ∈ root.below) :
    ∃ front back, root.below = front ++ base.below ++ back := by
  induction root using Place.induct with
  | step root ih =>
    cases mem_below_iff.1 h with
    | inl heq =>
      subst heq
      exact ⟨[], [], by simp⟩
    | inr hpart =>
      obtain ⟨c, hc, hbase⟩ := hpart
      obtain ⟨front, back, hsplit⟩ := ih c hc hbase
      obtain ⟨before, after, hchildren⟩ := List.append_of_mem hc
      refine ⟨root :: before.flatMap below ++ front, back ++ after.flatMap below, ?_⟩
      rw [below_eq, hchildren, List.flatMap_append, List.flatMap_cons, hsplit]
      simp

theorem id_of_getElem? {i : Nat} (h : root.here.Numbered 0) (hq : root.below[i]? = some q) :
    q.id = i := by
  have hids : root.below.map Place.id = List.range' 0 root.here.size :=
    ids_placesFrom root.here root.above h
  have hi : (root.below.map Place.id)[i]? = some q.id := by
    rw [List.getElem?_map, hq, Option.map_some]
  rw [hids, List.getElem?_eq_some_iff] at hi
  obtain ⟨hlt, hid⟩ := hi
  rw [← hid, List.getElem_range']
  omega

theorem getElem?_id (h : root.here.Numbered 0) (hq : q ∈ root.below) :
    root.below[q.id]? = some q := by
  obtain ⟨i, hi⟩ := List.mem_iff_getElem?.1 hq
  rw [id_of_getElem? h hi]
  exact hi

theorem slice_below (h : root.here.Numbered 0) (hbase : base ∈ root.below) :
    (root.below.drop base.id).take base.below.length = base.below := by
  obtain ⟨front, back, hsplit⟩ := below_split hbase
  have hfirst : root.below[front.length]? = some base := by
    rw [hsplit, List.append_assoc, List.getElem?_append_right (Nat.le_refl _), Nat.sub_self,
      below_eq]
    rfl
  rw [id_of_getElem? h hfirst, hsplit, List.append_assoc, List.drop_left, List.take_left]

theorem id_lt_of_mem_above (htop : root.above = []) (h : root.here.Numbered 0)
    (hbase : base ∈ root.below) : ∀ s ∈ base.above, s.id < base.id := by
  intro s hs
  obtain ⟨front, above, hsplit⟩ := List.append_of_mem hs
  let m : Place := ⟨s, above⟩
  have hline : m.line <:+ base.line :=
    ⟨base.here :: front, by rw [line, line, hsplit, List.cons_append]⟩
  obtain ⟨hm, hbm⟩ := ancestor_mem_below htop hbase hline
  have hne : base ≠ m := by
    intro heq
    have hlength := congrArg (fun p : Place => p.above.length) heq
    simp only [m, hsplit, List.length_append, List.length_cons] at hlength
    omega
  -- the place comes after its ancestor in the order of the numbers
  obtain ⟨c, hc, hbc⟩ := (mem_below_iff.1 hbm).resolve_left hne
  obtain ⟨before, after, hbelow⟩ := below_split hm
  obtain ⟨j, hj⟩ := List.mem_iff_getElem?.1 (List.mem_flatMap.2 ⟨c, hc, hbc⟩)
  have hfirst : root.below[before.length]? = some m := by
    rw [hbelow, List.append_assoc, List.getElem?_append_right (Nat.le_refl _), Nat.sub_self,
      below_eq]
    rfl
  have hlater : root.below[before.length + (j + 1)]? = some base := by
    rw [hbelow, List.append_assoc, List.getElem?_append_right (Nat.le_add_right _ _),
      Nat.add_sub_cancel_left, below_eq, List.cons_append, List.getElem?_cons_succ]
    exact (List.getElem?_append_left (List.getElem?_eq_some_iff.1 hj).1).trans hj
  have hsid : s.id = before.length := id_of_getElem? h hfirst
  have hbid : base.id = before.length + (j + 1) := id_of_getElem? h hlater
  omega

end Place

section Finding

variable {text : List Char} {source : Source} {t : Cst} {s : Shape} {q : Place} {k id after : Nat}

theorem Arena.find?_eq_some_iff (hindices : (t.preorder.map Cst.index).Nodup)
    (h : Java.lower text t none 0 = .ok (s, after)) :
    (Arena.build t).find? k = some id ↔ ∃ q, (q, some k) ∈ tagged t ⟨s, []⟩ ∧ q.id = id := by
  let entries := (tagged t ⟨s, []⟩).filterMap fun tag => tag.2.map (·, tag.1.id)
  have hkeys : (entries.map (·.1)).Nodup := by
    have hrows : entries.map (·.1) = (tagged t ⟨s, []⟩).filterMap (·.2) := by
      rw [List.map_filterMap]
      refine List.filterMap_congr fun tag _ => ?_
      obtain ⟨p, row⟩ := tag
      cases row <;> rfl
    rw [hrows]
    exact hindices.sublist (rows_sublist t ⟨s, []⟩)
  have hreverse : (entries.reverse.map (·.1)).Nodup := by
    rw [List.map_reverse]
    exact List.nodup_reverse.2 hkeys
  have hfind : (Arena.build t).find? k = entries.reverse.lookup k := by
    rw [Arena.find?, Arena.build_of_lower h, Arena.extend, Arena.empty, List.append_nil]
  rw [hfind, lookup_eq_some_iff_mem hreverse, List.mem_reverse, List.mem_filterMap]
  constructor
  · intro hmem
    obtain ⟨⟨p, row⟩, htag, hentry⟩ := hmem
    cases row with
    | none => simp at hentry
    | some j =>
      simp only [Option.map_some, Option.some.injEq, Prod.mk.injEq] at hentry
      exact ⟨p, hentry.1 ▸ htag, hentry.2⟩
  · intro hmem
    obtain ⟨p, htag, hid⟩ := hmem
    exact ⟨(p, some k), htag, by simp [hid]⟩

theorem mem_below_of_tagged (h : lower text t none 0 = .ok (s, after)) {row : Option Nat}
    (hq : (q, row) ∈ tagged t ⟨s, []⟩) : q ∈ Place.below ⟨s, []⟩ := by
  rw [← map_fst_tagged t (p := ⟨s, []⟩) h]
  exact List.mem_map_of_mem hq

theorem mem_tagged_self (t : Cst) (p : Place) : (p, some t.index) ∈ tagged t p := by
  obtain ⟨row, index, children⟩ := t
  rw [tagged]
  exact List.mem_cons_self

theorem Tree.find?_eq_some_iff (hindices : (t.preorder.map Cst.index).Nodup)
    (h : lower text t none 0 = .ok (s, after)) :
    Tree.find? ⟨source, Arena.build t, placesFrom [] s⟩ k = some q ↔
      (q, some k) ∈ tagged t ⟨s, []⟩ := by
  have hget : ∀ {p row}, (p, row) ∈ tagged t ⟨s, []⟩ → (placesFrom [] s)[p.id]? = some p :=
    fun htag => Place.getElem?_id (numbered_of_lower t h).1 (mem_below_of_tagged h htag)
  rw [Tree.find?, Option.bind_eq_some_iff]
  constructor
  · intro hfound
    obtain ⟨id, hid, hq⟩ := hfound
    obtain ⟨p, htag, rfl⟩ := (Arena.find?_eq_some_iff hindices h).1 hid
    rw [show q = p from Option.some.inj (hq.symm.trans (hget htag))]
    exact htag
  · intro htag
    exact ⟨q.id, (Arena.find?_eq_some_iff hindices h).2 ⟨q, htag, rfl⟩, hget htag⟩

mutual

theorem tagged_lift (base : Place) : ∀ (t : Cst) (q : Place),
    tagged t (base.lift q) = (tagged t q).map fun tag => (base.lift tag.1, tag.2)
  | .node row index [], q => by
    rw [tagged_leaf, tagged_leaf, Place.children_lift]
    simp
  | .node row index (c :: children), q => by
    rw [tagged_node (by simp), tagged_node (by simp), Place.children_lift,
      taggedAll_lift base (c :: children) q.children]
    rfl

theorem taggedAll_lift (base : Place) : ∀ (trees : List Cst) (places : List Place),
    taggedAll trees (places.map base.lift) =
      (taggedAll trees places).map fun tag => (base.lift tag.1, tag.2)
  | [], places => by
    rw [taggedAll, taggedAll]
    rfl
  | t :: trees, places => by
    cases hextra : t.row.extra with
    | true =>
      rw [taggedAll_of_extra hextra, taggedAll_of_extra hextra]
      exact taggedAll_lift base trees places
    | false =>
      cases places with
      | nil => simp [taggedAll, hextra]
      | cons p places =>
        rw [List.map_cons, taggedAll_cons hextra, taggedAll_cons hextra, List.map_append,
          tagged_lift base t p, taggedAll_lift base trees places]

end

end Finding

end IfCollapse.Java
