import IfCollapse.Proofs.Lowering

/-! From shapes to an arena and back. Storing a concrete tree adds the elements of the shape that it is
lowered to, each with the numbers of its parent and of its children; from the stored elements the shape
can be read back. -/

namespace IfCollapse.Java

namespace Place

def element (p : Place) : Element where
  name := p.here.name
  span := p.span
  parent := p.parent?.map Place.id
  field := p.field
  content :=
    match p.here with
    | .token _ named => .token named
    | .node _ children => .node (children.map Shape.id)

theorem map_id_parent? (p : Place) : p.parent?.map Place.id = p.above.head?.map Shape.id := by
  obtain ⟨s, above⟩ := p
  cases above <;> rfl

@[simp] theorem children_element (p : Place) : p.element.children = p.children.map Place.id := by
  obtain ⟨s, above⟩ := p
  cases s with
  | token label named => rfl
  | node label parts =>
    rw [children, List.map_map]
    rfl

@[simp] theorem isToken_element (p : Place) : p.element.isToken = p.isToken := by
  obtain ⟨s, above⟩ := p
  cases s <;> rfl

end Place

section Tags

variable {text : List Char}

mutual

theorem map_fst_tagged : ∀ (t : Cst) {p : Place} {field : Option String} {next after : Nat},
    lower text t field next = .ok (p.here, after) → (tagged t p).map (·.1) = p.below
  | .node row index children, p, field, next, after, h => by
    obtain ⟨s, above⟩ := p
    obtain ⟨content, _, hs⟩ := lower_cases h
    rcases hs with ⟨rfl, _, _, rfl, _⟩ | ⟨rfl, _, rfl, _⟩ | ⟨hne, shapes, hall, rfl⟩
    · rfl
    · rfl
    · rw [tagged_node hne, List.map_cons, Place.below_eq]
      exact congrArg _ (map_fst_taggedAll children _ hall)

theorem map_fst_taggedAll : ∀ (trees : List Cst) (above : List Shape) {next after : Nat}
    {shapes : List Shape}, lowerAll text trees next = .ok (shapes, after) →
      (taggedAll trees (shapes.map (⟨·, above⟩))).map (·.1) =
        (shapes.map (⟨·, above⟩)).flatMap Place.below
  | [], above, next, after, shapes, h => by
    simp only [lowerAll, Except.ok.injEq, Prod.mk.injEq] at h
    obtain ⟨rfl, _⟩ := h
    rfl
  | t :: trees, above, next, after, shapes, h => by
    rcases lowerAll_cases h with ⟨hskip, hrest⟩ | ⟨hkept, s, middle, rest, hs, hrest, rfl⟩
    · rw [taggedAll_of_extra hskip]
      exact map_fst_taggedAll trees above hrest
    · have hfirst := map_fst_tagged t (p := ⟨s, above⟩) hs
      rw [List.map_cons, taggedAll_cons hkept, List.map_append, hfirst, List.flatMap_cons,
        map_fst_taggedAll trees above hrest]

end

theorem length_tagged {t : Cst} {p : Place} {field : Option String} {next after : Nat}
    (h : lower text t field next = .ok (p.here, after)) : next + (tagged t p).length = after := by
  obtain ⟨hnumbered, rfl⟩ := numbered_of_lower t h
  have hids : p.below.map Place.id = List.range' next p.here.size :=
    ids_placesFrom p.here p.above hnumbered
  have hlength := congrArg List.length hids
  rw [← map_fst_tagged t h, List.length_map, List.length_map, List.length_range'] at hlength
  rw [hlength]

end Tags

theorem modify_append_cons {α : Type} (f : α → α) (l : List α) (x : α) (r : List α) :
    (l ++ x :: r).modify l.length f = l ++ f x :: r := by
  induction l with
  | nil => rfl
  | cons y l ih => simpa using ih

namespace Arena

/-- What lowering adds to an arena: the elements, the entries of their rows and the comments. -/
def extend (a : Arena) (tags : List (Place × Option Nat)) (spans : List Span) : Arena where
  elements := a.elements ++ (tags.map (·.1.element)).toArray
  root := a.root
  rows := (tags.filterMap fun tag => tag.2.map (·, tag.1.id)).reverse ++ a.rows
  comments := a.comments ++ spans

section Extend

variable {a : Arena} {tags more : List (Place × Option Nat)} {spans others : List Span}

theorem extend_nil : a.extend [] [] = a := by
  simp [extend]

theorem extend_extend :
    (a.extend tags spans).extend more others = a.extend (tags ++ more) (spans ++ others) := by
  simp [extend]

theorem size_extend : (a.extend tags spans).size = a.size + tags.length := by
  simp [extend, size]

theorem remark_eq_extend (span : Span) : a.remark span = a.extend [] [span] := by
  simp [remark, extend]

theorem alloc_eq_extend (p : Place) :
    a.alloc (fun n => n) p.element = (a.size, a.extend [(p, none)] []) := by
  simp [alloc, extend]

theorem enter_eq_extend {p : Place} (index : Nat) (h : p.id = a.size)
    (htags : ∀ tag ∈ tags, tag.2 = none) :
    (a.extend ((p, none) :: tags) spans).enter index a.size =
      a.extend ((p, some index) :: tags) spans := by
  have hnone : tags.filterMap (fun tag => tag.2.map (·, tag.1.id)) = [] := by
    simpa [List.filterMap_eq_nil_iff] using fun p row htag => htags (p, row) htag
  simp [enter, extend, hnone, h]

theorem setChildren_extend (label : Label) (children above : List Shape) (row : Option Nat) :
    (a.extend ((⟨.node label [], above⟩, row) :: tags) spans).setChildren a.size
      (children.map Shape.id) = a.extend ((⟨.node label children, above⟩, row) :: tags) spans := by
  let before : Place := ⟨.node label [], above⟩
  let behind : Place := ⟨.node label children, above⟩
  have hset : before.element.setChildren (children.map Shape.id) = behind.element := rfl
  have hmodify : (a.elements ++ (before.element :: tags.map (·.1.element)).toArray).modify a.size
      (·.setChildren (children.map Shape.id)) =
        a.elements ++ (behind.element :: tags.map (·.1.element)).toArray := by
    apply Array.toList_inj.1
    rw [Array.toList_modify, Array.toList_append, Array.toList_append, size, ← Array.length_toList,
      modify_append_cons, hset]
  simp only [extend, setChildren, List.map_cons, hmodify, List.filterMap_cons, before, behind]
  rfl

end Extend

section Lower

variable {text : List Char}

theorem alloc_token (a : Arena) (label : Label) (above : List Shape) (named : Bool) :
    a.alloc (fun n => n) ⟨label.name, label.span, above.head?.map Shape.id, label.field,
      .token named⟩ = (a.size, a.extend [(⟨.token label named, above⟩, none)] []) := by
  rw [← Place.map_id_parent? ⟨.token label named, above⟩]
  exact alloc_eq_extend ⟨.token label named, above⟩

theorem alloc_node (a : Arena) (label : Label) (above : List Shape) :
    a.alloc (fun n => n) ⟨label.name, label.span, above.head?.map Shape.id, label.field,
      .node []⟩ = (a.size, a.extend [(⟨.node label [], above⟩, none)] []) := by
  rw [← Place.map_id_parent? ⟨.node label [], above⟩]
  exact alloc_eq_extend ⟨.node label [], above⟩

mutual

theorem lower_eq_extend : ∀ (t : Cst) {s : Shape} {field : Option String} {after : Nat}
    (above : List Shape) (a : Arena), Java.lower text t field a.size = .ok (s, after) →
      lower (fun n => n) t (above.head?.map Shape.id) field a =
        (a.size, a.extend (tagged t ⟨s, above⟩) (Java.comments t))
  | .node row index children, s, field, after, above, a, h => by
    obtain ⟨content, _, hs⟩ := lower_cases h
    rcases hs with ⟨rfl, hnamed, hplain, rfl, _⟩ | ⟨rfl, hbare, rfl, _⟩ |
      ⟨hne, shapes, hall, rfl⟩
    · -- the token is the second element, and the wrapper is stored without it
      let label : Label := ⟨a.size, row.kind, field, row.span, content⟩
      let token : Shape := .token ⟨a.size + 1, row.kind, none, row.span, content⟩ true
      let inner : Place := ⟨token, .node label [token] :: above⟩
      have hwrapper : a.alloc (fun n => n) ⟨row.kind, row.span, above.head?.map Shape.id, field,
          .node []⟩ = (a.size, a.extend [(⟨.node label [], above⟩, none)] []) :=
        a.alloc_node label above
      have htoken : (a.extend [(⟨.node label [], above⟩, none)] []).alloc (fun n => n)
          ⟨row.kind, row.span, some a.size, none, .token true⟩ =
            (a.size + 1, a.extend [(⟨.node label [], above⟩, none), (inner, none)] []) :=
        (alloc_eq_extend inner).trans (by rw [size_extend, extend_extend]; rfl)
      have hset : (a.extend [(⟨.node label [], above⟩, none), (inner, none)] []).setChildren a.size
          [a.size + 1] = a.extend [(⟨.node label [token], above⟩, none), (inner, none)] [] :=
        setChildren_extend label [token] above none
      have henter : (a.extend [(⟨.node label [token], above⟩, none), (inner, none)] []).enter index
          a.size = a.extend [(⟨.node label [token], above⟩, some index), (inner, none)] [] :=
        enter_eq_extend index rfl (by simp)
      simp only [lower, List.isEmpty_nil, if_true, hnamed, hplain, Bool.not_false, Bool.and_self,
        hwrapper, htoken]
      exact congrArg (Prod.mk a.size) ((congrArg (·.enter index a.size) hset).trans henter)
    · let label : Label := ⟨a.size, row.kind, field, row.span, content⟩
      have htoken : a.alloc (fun n => n) ⟨row.kind, row.span, above.head?.map Shape.id, field,
          .token row.named⟩ = (a.size, a.extend [(⟨.token label row.named, above⟩, none)] []) :=
        a.alloc_token label above row.named
      have henter : (a.extend [(⟨.token label row.named, above⟩, none)] []).enter index a.size =
          a.extend [(⟨.token label row.named, above⟩, some index)] [] :=
        enter_eq_extend index rfl (by simp)
      have hleaf : (row.named && !(Kind.ofName row.kind).isFragment) = false := by
        cases hbare with
        | inl hn => simp [hn]
        | inr hf => simp [hf]
      simp only [lower, List.isEmpty_nil, if_true, hleaf, Bool.false_eq_true, if_false, htoken]
      exact congrArg (Prod.mk a.size) henter
    · let label : Label := ⟨a.size, row.kind, field, row.span, content⟩
      have hstart : a.alloc (fun n => n) ⟨row.kind, row.span, above.head?.map Shape.id, field,
          .node []⟩ = (a.size, a.extend [(⟨.node label [], above⟩, none)] []) :=
        a.alloc_node label above
      have henter : (a.extend [(⟨.node label [], above⟩, none)] []).enter index a.size =
          a.extend [(⟨.node label [], above⟩, some index)] [] :=
        enter_eq_extend index rfl (by simp)
      have hsize : (a.extend [(⟨.node label [], above⟩, some index)] []).size = a.size + 1 :=
        size_extend
      have hparts : lowerAll (fun n => n) children a.size _ = _ :=
        lowerAll_eq_extend children (.node label shapes) above _ (hsize ▸ hall)
      let tags := taggedAll children (shapes.map (⟨·, .node label shapes :: above⟩))
      have hset : (a.extend ((⟨.node label [], above⟩, some index) :: tags)
          (commentsAll children)).setChildren a.size (shapes.map Shape.id) =
            a.extend ((⟨.node label shapes, above⟩, some index) :: tags) (commentsAll children) :=
        setChildren_extend label shapes above (some index)
      rw [extend_extend] at hparts
      rw [lower, if_neg (by simpa using hne), tagged_node hne, Java.comments]
      simp only [hstart, henter, hparts]
      exact congrArg (Prod.mk a.size) hset

theorem lowerAll_eq_extend : ∀ (trees : List Cst) {shapes : List Shape} {after : Nat}
    (parent : Shape) (above : List Shape) (a : Arena),
    Java.lowerAll text trees a.size = .ok (shapes, after) →
      lowerAll (fun n => n) trees parent.id a = (shapes.map Shape.id,
        a.extend (taggedAll trees (shapes.map (⟨·, parent :: above⟩))) (commentsAll trees))
  | [], shapes, after, parent, above, a, h => by
    simp only [Java.lowerAll, Except.ok.injEq, Prod.mk.injEq] at h
    obtain ⟨rfl, _⟩ := h
    rw [lowerAll, commentsAll, List.map_nil, taggedAll, extend_nil]
  | t :: trees, shapes, after, parent, above, a, h => by
    rw [lowerAll, commentsAll]
    rcases lowerAll_cases h with ⟨hskip, hrest⟩ | ⟨hkept, s, middle, rest, hs, hrest, rfl⟩
    · rw [taggedAll_of_extra hskip, if_pos hskip, if_pos hskip]
      split
      · have hsize : (a.remark t.span).size = a.size := rfl
        rw [lowerAll_eq_extend trees parent above (a.remark t.span) (hsize ▸ hrest),
          remark_eq_extend, extend_extend]
        rfl
      · exact lowerAll_eq_extend trees parent above a hrest
    · have hfirst := lower_eq_extend t (parent :: above) a hs
      have hsize : (a.extend (tagged t ⟨s, parent :: above⟩) (Java.comments t)).size = middle := by
        rw [size_extend]
        exact length_tagged (p := ⟨s, parent :: above⟩) hs
      rw [List.head?_cons, Option.map_some] at hfirst
      rw [← hsize] at hrest
      have hid : s.id = a.size := (numbered_of_lower t hs).1.id_eq
      simp only [hkept, Bool.false_eq_true, if_false, hfirst,
        lowerAll_eq_extend trees parent above _ hrest, extend_extend, List.map_cons,
        taggedAll_cons hkept, hid]

end

theorem build_of_lower {t : Cst} {s : Shape} {after : Nat}
    (h : Java.lower text t none 0 = .ok (s, after)) :
    build t = empty.extend (tagged t ⟨s, []⟩) (Java.comments t) := by
  have hlower := lower_eq_extend t [] empty h
  rw [List.head?_nil, Option.map_none] at hlower
  rw [build, buildWith, hlower]
  rfl

/-- The refinement: what is stored are the places of the shapes, in the order of their numbers. -/
theorem elements_of_lower {t : Cst} {s : Shape} {after : Nat}
    (h : Java.lower text t none 0 = .ok (s, after)) :
    (build t).elements.toList = (placesFrom [] s).map Place.element := by
  have hplaces : (tagged t ⟨s, []⟩).map (·.1) = placesFrom [] s :=
    map_fst_tagged t (p := ⟨s, []⟩) h
  rw [build_of_lower h, ← hplaces, List.map_map]
  simp [extend, empty, Function.comp_def]

end Lower

section Shapes

variable {text : List Char}

theorem filterMap_ids (above : List Shape) (later : List Shape) :
    ∀ {shapes : List Shape} {first : Nat}, Shape.NumberedAll first shapes →
      (shapes.map Shape.id).filterMap (fun id =>
        ((placesFromAll above shapes).map Place.here ++ later)[id - first]?) = shapes := by
  intro shapes
  induction shapes with
  | nil => intros; rfl
  | cons s shapes ih =>
    intro first h
    obtain ⟨hs, hrest⟩ := h
    have hlength : ((placesFrom above s).map Place.here).length = s.size := by
      have hids := congrArg List.length (ids_placesFrom s above hs)
      rw [List.length_map, List.length_range'] at hids
      rw [List.length_map, hids]
    have hfirst : ((placesFrom above s).map Place.here)[0]? = some s := by
      cases s <;> rfl
    rw [List.map_cons, List.filterMap_cons, hs.id_eq, Nat.sub_self, placesFromAll, List.map_append,
      List.append_assoc, List.getElem?_append_left (by rw [hlength]; exact s.size_pos), hfirst]
    refine congrArg (s :: ·) ?_
    calc
      _ = (shapes.map Shape.id).filterMap (fun id =>
          ((placesFromAll above shapes).map Place.here ++ later)[id - (first + s.size)]?) := by
        refine List.filterMap_congr fun id hid => ?_
        obtain ⟨c, hc, rfl⟩ := List.mem_map.1 hid
        have hle := (hrest.of_mem hc).1
        rw [List.getElem?_append_right (by omega), hlength, Nat.sub_sub]
      _ = shapes := ih hrest

theorem shapesFrom_cons {e : Element} {content : List Char} {first : Nat} {later : List Element}
    (h : slice text e.span = .ok content) : shapesFrom text first (e :: later) =
      (shapesFrom text (first + 1) later).map fun shapes =>
        shape first e content shapes :: shapes := by
  rw [shapesFrom]
  simp only [h, bind, Except.bind, pure, Except.pure]
  cases shapesFrom text (first + 1) later <;> rfl

theorem map_map_except {ε α β γ : Type} (x : Except ε α) (f : α → β) (g : β → γ) :
    (x.map f).map g = x.map (g ∘ f) := by
  cases x <;> rfl

mutual

theorem shapesFrom_append : ∀ (s : Shape) (above : List Shape) {first : Nat} (rest : List Element),
    s.Numbered first → (∀ p ∈ placesFrom above s, slice text p.span = .ok p.text) →
      shapesFrom text first ((placesFrom above s).map Place.element ++ rest) =
        (shapesFrom text (first + s.size) rest).map ((placesFrom above s).map Place.here ++ ·)
  | .token label named, above, first, rest, hn, htexts => by
    have htext := htexts ⟨.token label named, above⟩ (by simp [placesFrom])
    have hshape : ∀ shapes, shape first (Place.element ⟨.token label named, above⟩)
        label.text shapes = .token label named := by
      intro shapes
      rw [← show label.id = first from hn]
      rfl
    rw [placesFrom, List.map_singleton, List.singleton_append, shapesFrom_cons htext]
    simp only [Place.text, Shape.text, Shape.label, hshape]
    rfl
  | .node label children, above, first, rest, hn, htexts => by
    obtain ⟨hid, hparts⟩ := hn
    have htext := htexts ⟨.node label children, above⟩ (by simp [placesFrom])
    have hrest := shapesFrom_appendAll children (.node label children :: above) rest hparts
      fun p hp => htexts p (by rw [placesFrom]; exact List.mem_cons_of_mem _ hp)
    rw [placesFrom, List.map_cons, List.cons_append, shapesFrom_cons htext, hrest, map_map_except,
      Shape.size, Nat.add_right_comm, Nat.add_assoc]
    refine congrArg (fun f => Except.map f _) (funext fun later => ?_)
    have hfound := filterMap_ids (.node label children :: above) later hparts
    have hshape : shape first (Place.element ⟨.node label children, above⟩) label.text
        ((placesFromAll (.node label children :: above) children).map Place.here ++ later) =
          .node label children := by
      rw [← hid] at hfound ⊢
      exact congrArg (Shape.node label) hfound
    exact congrArg (· :: _) hshape

theorem shapesFrom_appendAll : ∀ (shapes : List Shape) (above : List Shape) {first : Nat}
    (rest : List Element), Shape.NumberedAll first shapes →
      (∀ p ∈ placesFromAll above shapes, slice text p.span = .ok p.text) →
      shapesFrom text first ((placesFromAll above shapes).map Place.element ++ rest) =
        (shapesFrom text (first + Shape.sizeAll shapes) rest).map
          ((placesFromAll above shapes).map Place.here ++ ·)
  | [], above, first, rest, hn, htexts => by
    rw [placesFromAll, Shape.sizeAll, List.map_nil, List.nil_append, Nat.add_zero]
    cases shapesFrom text first rest <;> rfl
  | s :: shapes, above, first, rest, hn, htexts => by
    obtain ⟨hs, hrest⟩ := hn
    rw [placesFromAll, List.map_append, List.append_assoc, shapesFrom_append s above _ hs
      fun p hp => htexts p (by rw [placesFromAll]; exact List.mem_append_left _ hp),
      shapesFrom_appendAll shapes above rest hrest
      fun p hp => htexts p (by rw [placesFromAll]; exact List.mem_append_right _ hp),
      map_map_except, Shape.sizeAll, Nat.add_assoc]
    refine congrArg (fun f => Except.map f _) (funext fun later => ?_)
    simp

end

theorem exists_slice_of_shapesFrom {elements : List Element} {first : Nat} {shapes : List Shape}
    (h : shapesFrom text first elements = .ok shapes) :
    ∀ e ∈ elements, ∃ content, slice text e.span = .ok content := by
  induction elements generalizing first shapes with
  | nil => simp
  | cons e later ih =>
    intro d hd
    obtain ⟨content, hcontent, h⟩ := bind_eq_ok.1 h
    obtain ⟨rest, hrest, _⟩ := bind_eq_ok.1 h
    cases List.mem_cons.1 hd with
    | inl heq => exact heq ▸ ⟨content, hcontent⟩
    | inr hmem => exact ih hrest d hmem

end Shapes

end Arena

section Readable

mutual

theorem exists_bound : ∀ t : Cst, ∃ n, ∀ u, t.Reaches u → u.span.stop ≤ n
  | .node row index children => by
    obtain ⟨n, hn⟩ := exists_boundAll children
    refine ⟨row.span.stop + n, fun u hu => ?_⟩
    cases hu with
    | here => exact Nat.le_add_right _ _
    | part hc _ hreach => exact Nat.le_trans (hn _ hc u hreach) (Nat.le_add_left _ _)

theorem exists_boundAll : ∀ trees : List Cst, ∃ n, ∀ t ∈ trees, ∀ u, t.Reaches u → u.span.stop ≤ n
  | [] => ⟨0, by simp⟩
  | t :: trees => by
    obtain ⟨m, hm⟩ := exists_bound t
    obtain ⟨n, hn⟩ := exists_boundAll trees
    refine ⟨m + n, fun c hc u hu => ?_⟩
    cases List.mem_cons.1 hc with
    | inl heq => exact Nat.le_trans (hm u (heq ▸ hu)) (Nat.le_add_right _ _)
    | inr hmem => exact Nat.le_trans (hn c hmem u hu) (Nat.le_add_left _ _)

end

theorem byteLength_replicate (n : Nat) : byteLength (List.replicate n 'a') = n := by
  induction n with
  | zero => rfl
  | succ n ih =>
    rw [List.replicate_succ, byteLength_cons, ih]
    exact Nat.add_comm 1 n

theorem exists_text_lower (t : Cst) : ∃ text s after, lower text t none 0 = .ok (s, after) := by
  obtain ⟨n, hn⟩ := exists_bound t
  refine ⟨List.replicate n 'a', ?_⟩
  have htexts : ∀ u, t.Reaches u → ∃ content, u.text (List.replicate n 'a') = .ok content := by
    intro u hu
    have hstop := hn u hu
    have hordered := u.span.ordered
    refine ⟨List.replicate (u.span.stop - u.span.start) 'a', slice_eq_ok.2
      ⟨List.replicate u.span.start 'a', List.replicate (n - u.span.stop) 'a', ?_, ?_, ?_⟩⟩
    · rw [List.replicate_append_replicate, List.replicate_append_replicate]
      congr 1
      omega
    · rw [byteLength_replicate]
    · rw [List.replicate_append_replicate, byteLength_replicate]
      omega
  obtain ⟨⟨s, after⟩, h⟩ := exists_lower_of_readable t none 0 htexts
  exact ⟨s, after, h⟩

end Readable

section Trees

variable {source : Source} {cst : Cst} {tree : Tree}

theorem ofCst_of_lower {s : Shape} {after : Nat}
    (h : lower source.text cst none 0 = .ok (s, after)) :
    Tree.ofCst source cst = .ok ⟨source, Arena.build cst, placesFrom [] s⟩ := by
  have hread := Arena.shapesFrom_append s [] [] (numbered_of_lower cst h).1
    (slice_of_lower cst [] h)
  have hhead : ((placesFrom [] s).map Place.here).head? = some s := by
    cases s <;> rfl
  rw [List.append_nil, ← Arena.elements_of_lower h] at hread
  simp only [Tree.ofCst, hread, Arena.shapesFrom, Except.map, List.append_nil, bind, Except.bind,
    pure, Except.pure, hhead, Option.elim_some]

theorem lower_of_ofCst (h : Tree.ofCst source cst = .ok tree) : ∃ s after,
    lower source.text cst none 0 = .ok (s, after) ∧
      tree = ⟨source, Arena.build cst, placesFrom [] s⟩ := by
  obtain ⟨shapes, hshapes, _⟩ := bind_eq_ok.1 h
  -- the elements are the same for a text that is sure to fit
  obtain ⟨text, s, after, hlower⟩ := exists_text_lower cst
  rw [Arena.elements_of_lower hlower] at hshapes
  have hreadable : ∀ u, cst.Reaches u → ∃ content, u.text source.text = .ok content := by
    intro u hu
    obtain ⟨q, hq, _, _, _, _, hfound⟩ := exists_place_of_reaches (p := ⟨s, []⟩) hu hlower
    have hspan : q.span = u.span := span_of_lower hfound
    obtain ⟨content, hcontent⟩ :=
      Arena.exists_slice_of_shapesFrom hshapes q.element (List.mem_map_of_mem hq)
    have htext : slice source.text q.span = .ok content := hcontent
    rw [hspan] at htext
    exact ⟨content, htext⟩
  obtain ⟨⟨s, after⟩, hlower⟩ := exists_lower_of_readable cst none 0 hreadable
  have htree := ofCst_of_lower hlower
  rw [h, Except.ok.injEq] at htree
  exact ⟨s, after, hlower, htree⟩

end Trees

/-- What a lowered tree and the place at its top have to do with the concrete tree. -/
structure Lowered (source : Source) (cst : Cst) (tree : Tree) (root : Place) : Prop where
  top : root.above = []
  source_eq : tree.source = source
  places_eq : tree.places = root.below
  comments_eq : tree.comments = comments cst
  numbered : root.here.Numbered 0
  texts : ∀ p ∈ root.below, slice source.text p.span = .ok p.text
  ordered : cst.WellFormed → root.here.Ordered

theorem Lowered.mem_below {source : Source} {cst : Cst} {tree : Tree} {root place : Place}
    {id : Nat} (hl : Lowered source cst tree root) (h : tree.get? id = some place) :
    place ∈ root.below := by
  rw [← hl.places_eq]
  exact List.mem_of_getElem? h

theorem lowered_of_lower {source : Source} {cst : Cst} {s : Shape} {after : Nat}
    (h : lower source.text cst none 0 = .ok (s, after)) :
    Lowered source cst ⟨source, Arena.build cst, placesFrom [] s⟩ ⟨s, []⟩ where
  top := rfl
  source_eq := rfl
  places_eq := rfl
  comments_eq := congrArg Arena.comments (Arena.build_of_lower h)
  numbered := (numbered_of_lower cst h).1
  texts := slice_of_lower cst [] h
  ordered := fun hw => ordered_of_lower cst hw h

theorem lowered_of_ofCst {source : Source} {cst : Cst} {tree : Tree}
    (h : Tree.ofCst source cst = .ok tree) : ∃ root, Lowered source cst tree root := by
  obtain ⟨s, after, hl, rfl⟩ := lower_of_ofCst h
  exact ⟨_, lowered_of_lower hl⟩

end IfCollapse.Java
