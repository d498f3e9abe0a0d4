import IfCollapse.Proofs.Strays

/-! Whose `else` it is. An `else` belongs to the nearest `if` that waits for one. An `if` in front
of an outer `else` has an `else` of its own, and its branches may hide an inner `if` without one
behind their braces; a replacement takes the braces away. -/

namespace IfCollapse.Branch

open Java

/-- A statement as a following `else` sees it. What ends in a brace or a semicolon of its own is
plain, and a loop or a label counts as its body. -/
inductive Outline where
  | plain
  | oneArmed (id : Nat) (body : Outline)
  | twoArmed (id : Nat) (body other : Outline)

inductive Word where
  | opens (id : Nat)
  | otherwise

namespace Outline

def words : Outline → List Word
  | .plain => []
  | .oneArmed id body => .opens id :: body.words
  | .twoArmed id body other => .opens id :: (body.words ++ .otherwise :: other.words)

def endsOpen : Outline → Bool
  | .plain => false
  | .oneArmed _ _ => true
  | .twoArmed _ _ other => other.endsOpen

/-- No `if` with an `else` has an open statement in front of that. -/
def settled : Outline → Bool
  | .plain => true
  | .oneArmed _ body => body.settled
  | .twoArmed _ body other => body.settled && !body.endsOpen && other.settled

def pending : Outline → List Nat
  | .plain => []
  | .oneArmed id body => body.pending ++ [id]
  | .twoArmed _ _ other => other.pending

end Outline

/-- The `if`s that wait for an `else` after some words; each `else` goes to the first of them. -/
def waiting : List Nat → List Word → List Nat
  | ids, [] => ids
  | ids, .opens id :: words => waiting (id :: ids) words
  | ids, .otherwise :: words => waiting ids.tail words

theorem Outline.pending_eq_nil_iff (o : Outline) : o.pending = [] ↔ o.endsOpen = false := by
  induction o with
  | plain => simp [pending, endsOpen]
  | oneArmed id body => simp [pending, endsOpen]
  | twoArmed id body other _ ih => simpa [pending, endsOpen] using ih

theorem waiting_words (o : Outline) (h : o.settled = true) (ids : List Nat) (rest : List Word) :
    waiting ids (o.words ++ rest) = waiting (o.pending ++ ids) rest := by
  induction o generalizing ids rest with
  | plain => rfl
  | oneArmed id body ih =>
    have hbody := ih h (id :: ids) rest
    simpa [Outline.words, Outline.pending, waiting] using hbody
  | twoArmed id body other ihb iho =>
    simp only [Outline.settled, Bool.and_eq_true, Bool.not_eq_true'] at h
    have hnone : body.pending = [] := body.pending_eq_nil_iff.2 h.1.2
    have hbody := ihb h.1.1 (id :: ids) (.otherwise :: (other.words ++ rest))
    simp only [hnone, List.nil_append, waiting, List.tail_cons] at hbody
    simp only [Outline.words, List.cons_append, List.append_assoc, waiting, Outline.pending]
    rw [hbody]
    exact iho h.2 ids rest

def loopNames : List String :=
  ["while_statement", "for_statement", "enhanced_for_statement"]

mutual

def outline : Shape → Outline
  | .token _ _ => .plain
  | .node label children =>
    if Kind.ofName label.name = .ifStatement then
      match outlineAt? "alternative" children with
      | none => .oneArmed label.id ((outlineAt? "consequence" children).getD .plain)
      | some other => .twoArmed label.id ((outlineAt? "consequence" children).getD .plain) other
    else if label.name ∈ loopNames then (outlineAt? "body" children).getD .plain
    else if label.name = "labeled_statement" then (outlineLast? children).getD .plain
    else .plain

def outlineAt? (field : String) : List Shape → Option Outline
  | [] => none
  | s :: shapes => if s.field = some field then some (outline s) else outlineAt? field shapes

def outlineLast? : List Shape → Option Outline
  | [] => none
  | s :: shapes => if shapes.isEmpty then some (outline s) else outlineLast? shapes

end

def openBody? (p : Place) : Option Place :=
  if p.here.name ∈ loopNames then p.childByField? "body"
  else if p.here.name = "labeled_statement" then p.children.getLast?
  else none

inductive Through (p : Place) : Place → Prop
  | here : Through p p
  | body {m q : Place} : Through p m → openBody? m = some q → Through p q

structure BeforeElse (outer place : Place) : Prop where
  isIf : outer.kind = .ifStatement
  hasElse : (outer.childByField? "alternative").isSome = true
  leads : ∃ consequence, outer.childByField? "consequence" = some consequence ∧
    Through consequence place

/-- The `if` to which the `else` of `outer` belongs when `statement` stands in front of it. -/
def elseOwner (outer : Place) (statement : Shape) : Option Nat :=
  (waiting [] (.opens outer.id :: (outline statement).words)).head?

def Statement.filled (s : Statement) (expression : Conditional → Shape) : Shape :=
  graft (fun id => (s.substitutions.find? (·.target.id == id)).map expression) s.template.here

theorem outlineAt?_eq (field : String) (p : Place) :
    outlineAt? field p.here.children = (p.childByField? field).map fun c => outline c.here := by
  have hlist : ∀ shapes : List Shape, outlineAt? field shapes =
      ((shapes.map fun s => (⟨s, p.line⟩ : Place)).find? (·.field = some field)).map
        fun c => outline c.here := by
    intro shapes
    induction shapes with
    | nil => simp [outlineAt?]
    | cons s shapes ih =>
      by_cases hs : s.field = some field
      · simp [outlineAt?, hs, Place.field]
      · simp [outlineAt?, hs, Place.field, ih]
  exact hlist p.here.children

theorem outlineLast?_eq (p : Place) :
    outlineLast? p.here.children = p.children.getLast?.map fun c => outline c.here := by
  have hlist : ∀ shapes : List Shape, outlineLast? shapes =
      (shapes.map fun s => (⟨s, p.line⟩ : Place)).getLast?.map fun c => outline c.here := by
    intro shapes
    induction shapes with
    | nil => simp [outlineLast?]
    | cons s shapes ih => cases shapes <;> simp_all [outlineLast?]
  exact hlist p.here.children

section Outlines

variable {p c a b : Place}

theorem outline_node (hp : p.isToken = false) : outline p.here =
    if p.kind = .ifStatement then
      match p.childByField? "alternative" with
      | none => .oneArmed p.id (((p.childByField? "consequence").map (outline ·.here)).getD .plain)
      | some a => .twoArmed p.id (((p.childByField? "consequence").map (outline ·.here)).getD .plain)
          (outline a.here)
    else ((openBody? p).map (outline ·.here)).getD .plain := by
  have hat := outlineAt?_eq (p := p)
  have hlast := outlineLast?_eq p
  obtain ⟨s, above⟩ := p
  cases s with
  | token label named => simp [Place.isToken, Shape.isToken] at hp
  | node label children =>
    simp only [Shape.children] at hat hlast
    by_cases hif : Kind.ofName label.name = .ifStatement
    · have hkind : (⟨.node label children, above⟩ : Place).kind = .ifStatement := hif
      simp only [outline, hif, hkind, if_true, hat]
      cases Place.childByField? ⟨.node label children, above⟩ "alternative" <;> rfl
    · have hkind : ¬(⟨.node label children, above⟩ : Place).kind = .ifStatement := hif
      have hbody : openBody? ⟨.node label children, above⟩ =
          if label.name ∈ loopNames then Place.childByField? ⟨.node label children, above⟩ "body"
          else if label.name = "labeled_statement" then
            (Place.children ⟨.node label children, above⟩).getLast?
          else none := rfl
      simp only [outline, hif, hkind, if_false, hbody]
      by_cases hloop : label.name ∈ loopNames
      · simp [hloop, hat]
      · rw [if_neg hloop, if_neg hloop]
        by_cases hlabel : label.name = "labeled_statement" <;> simp [hlabel, hlast]

theorem isToken_of_mem_children (h : c ∈ p.children) : p.isToken = false := by
  obtain ⟨s, above⟩ := p
  cases s with
  | token label named => simp [Place.children, Shape.children] at h
  | node label children => rfl

theorem kind_of_openBody (h : openBody? p = some b) : ∃ name, p.kind = .other name := by
  have hname : p.here.name ∈ "labeled_statement" :: loopNames := by
    unfold openBody? at h
    split at h
    · rename_i hloop
      exact List.mem_cons_of_mem _ hloop
    · split at h
      · rename_i hlabel
        rw [hlabel]
        exact List.mem_cons_self
      · simp at h
  refine ⟨p.here.name, ?_⟩
  simp only [loopNames, List.mem_cons, List.not_mem_nil, or_false] at hname
  change Kind.ofName p.here.name = .other p.here.name
  rcases hname with h | h | h | h <;> rw [h] <;> rfl

theorem mem_children_of_openBody (h : openBody? p = some b) : b ∈ p.children := by
  unfold openBody? at h
  split at h
  · exact mem_children_of_childByField h
  · split at h
    · exact List.mem_of_getLast? h
    · simp at h

theorem outline_openBody (h : openBody? p = some b) : outline p.here = outline b.here := by
  obtain ⟨name, hkind⟩ := kind_of_openBody h
  rw [outline_node (isToken_of_mem_children (mem_children_of_openBody h)), hkind, h]
  simp

theorem outline_twoArmed (hk : p.kind = .ifStatement) (hc : p.childByField? "consequence" = some c)
    (ha : p.childByField? "alternative" = some a) :
    outline p.here = .twoArmed p.id (outline c.here) (outline a.here) := by
  rw [outline_node (isToken_of_mem_children (mem_children_of_childByField hc)), hk, hc, ha]
  simp

theorem exists_of_mem_pending {i : Nat} (h : i ∈ (outline p.here).pending) :
    ∃ q ∈ p.below, q.id = i := by
  induction p using Place.induct with
  | step p ih =>
    have hchild : ∀ c ∈ p.children, i ∈ (outline c.here).pending → ∃ q ∈ p.below, q.id = i := by
      intro c hc hi
      obtain ⟨q, hq, hid⟩ := ih c hc hi
      exact ⟨q, Place.mem_below_of_child hc hq, hid⟩
    cases hp : p.isToken with
    | true =>
      obtain ⟨s, above⟩ := p
      cases s <;> simp_all [outline, Outline.pending, Place.isToken, Shape.isToken]
    | false =>
      rw [outline_node hp] at h
      split at h
      · cases ha : p.childByField? "alternative" with
        | some a =>
          simp only [ha, Outline.pending] at h
          exact hchild a (mem_children_of_childByField ha) h
        | none =>
          simp only [ha, Outline.pending, List.mem_append, List.mem_singleton] at h
          cases h with
          | inr hid => exact ⟨p, p.mem_below_self, hid.symm⟩
          | inl hbody =>
            cases hc : p.childByField? "consequence" with
            | none => simp [hc, Outline.pending] at hbody
            | some c =>
              simp only [hc, Option.map_some, Option.getD_some] at hbody
              exact hchild c (mem_children_of_childByField hc) hbody
      · cases hb : openBody? p with
        | none => simp [hb, Outline.pending] at h
        | some b =>
          simp only [hb, Option.map_some, Option.getD_some] at h
          exact hchild b (mem_children_of_openBody hb) h

theorem position?_eq_none (hc : c ∈ p.children)
    (hp : p.kind = .ifStatement ∨ p.kind = .block ∨ ∃ name, p.kind = .other name) :
    position? c = none := by
  obtain ⟨s, _, rfl⟩ := List.mem_map.1 hc
  have hin : ∀ grandparent, positionIn? s p.here grandparent = none := by
    intro grandparent
    have hkind : p.here.kind = p.kind := rfl
    rcases hp with hp | hp | ⟨name, hp⟩ <;> simp [positionIn?, hkind, hp]
  simp [position?, hin]

end Outlines

theorem outlineAt?_map {field : String} {f : Shape → Shape} {shapes : List Shape}
    (h : ∀ s ∈ shapes, (f s).field = s.field ∧ outline (f s) = outline s) :
    outlineAt? field (shapes.map f) = outlineAt? field shapes := by
  induction shapes with
  | nil => rfl
  | cons s shapes ih =>
    have hs := h s List.mem_cons_self
    rw [List.map_cons, outlineAt?, outlineAt?, hs.1, hs.2,
      ih fun t ht => h t (List.mem_cons_of_mem s ht)]

theorem outlineLast?_map {f : Shape → Shape} {shapes : List Shape}
    (h : ∀ s ∈ shapes, outline (f s) = outline s) :
    outlineLast? (shapes.map f) = outlineLast? shapes := by
  induction shapes with
  | nil => rfl
  | cons s shapes ih =>
    rw [List.map_cons, outlineLast?, outlineLast?, h s List.mem_cons_self, List.isEmpty_map,
      ih fun t ht => h t (List.mem_cons_of_mem s ht)]

/-- Expressions are no part of the outline: it stays the same whatever is put at places that have a
position. -/
theorem outline_graft {others : Nat → Option Shape} {p : Place} (hself : others p.id = none)
    (h : ∀ q ∈ p.below, others q.id ≠ none → position? q ≠ none) :
    outline (graft others p.here) = outline p.here := by
  induction p using Place.induct with
  | step p ih =>
    obtain ⟨s, above⟩ := p
    cases s with
    | token label named =>
      change others label.id = none at hself
      simp [graft, hself]
    | node label children =>
      change others label.id = none at hself
      change outline (graft others (.node label children)) = outline (.node label children)
      rw [graft_node_of_none hself]
      by_cases hspine : Kind.ofName label.name = .ifStatement ∨ label.name ∈ loopNames ∨
          label.name = "labeled_statement"
      · have hkind : Kind.ofName label.name = .ifStatement ∨ Kind.ofName label.name = .block ∨
            ∃ name, Kind.ofName label.name = .other name := by
          simp only [loopNames, List.mem_cons, List.not_mem_nil, or_false] at hspine
          rcases hspine with hif | (hl | hl | hl) | hl
          · exact Or.inl hif
          all_goals
            rw [hl]
            exact Or.inr (Or.inr ⟨_, rfl⟩)
        have hparts : ∀ s ∈ children, (graft others s).field = s.field ∧
            outline (graft others s) = outline s := by
          intro s hs
          have hc : (⟨s, .node label children :: above⟩ : Place) ∈
              Place.children ⟨.node label children, above⟩ := List.mem_map_of_mem hs
          have hnone : others s.id = none := by
            by_contra hsome
            exact h _ (Place.child_mem_below hc) hsome (position?_eq_none hc hkind)
          refine ⟨congrArg Label.field (label_graft hnone), ih _ hc hnone ?_⟩
          intro q hq
          exact h q (Place.mem_below_of_child hc hq)
        simp only [outline, outlineAt?_map hparts, outlineLast?_map fun s hs => (hparts s hs).2]
      · simp only [not_or] at hspine
        simp [outline, hspine]

section Leading

variable {p q outer place : Place}

theorem Through.outline_eq (h : Through p q) : outline p.here = outline q.here := by
  induction h with
  | here => rfl
  | body _ hbody ih => rw [ih, outline_openBody hbody]

theorem Through.mem_below (h : Through p q) : q ∈ p.below := by
  induction h with
  | here => exact p.mem_below_self
  | body _ hbody ih =>
    exact Place.below_trans ih (Place.child_mem_below (mem_children_of_openBody hbody))

theorem BeforeElse.parent (h : BeforeElse outer place) :
    ∃ parent : Place, place ∈ parent.children ∧ parent.kind.isSequence = false := by
  obtain ⟨consequence, hc, hthrough⟩ := h.leads
  cases hthrough with
  | here =>
    refine ⟨outer, mem_children_of_childByField hc, ?_⟩
    rw [h.isIf]
    rfl
  | @body m _ _ hbody =>
    obtain ⟨name, hkind⟩ := kind_of_openBody hbody
    refine ⟨m, mem_children_of_openBody hbody, ?_⟩
    rw [hkind]
    rfl

theorem BeforeElse.outline_outer (h : BeforeElse outer place) :
    ∃ other, outline outer.here = .twoArmed outer.id (outline place.here) other := by
  obtain ⟨consequence, hc, hthrough⟩ := h.leads
  obtain ⟨a, ha⟩ := Option.isSome_iff_exists.1 h.hasElse
  refine ⟨outline a.here, ?_⟩
  rw [outline_twoArmed h.isIf hc ha, hthrough.outline_eq]

theorem BeforeElse.mem_child (h : BeforeElse outer place) :
    ∃ c ∈ outer.children, place ∈ c.below := by
  obtain ⟨consequence, hc, hthrough⟩ := h.leads
  exact ⟨consequence, mem_children_of_childByField hc, hthrough.mem_below⟩

theorem elseOwner_iff {outer : Place} {statement : Shape}
    (hsettled : (outline statement).settled = true)
    (hnew : ∀ i ∈ (outline statement).pending, i ≠ outer.id) :
    (outline statement).endsOpen = false ↔ elseOwner outer statement = some outer.id := by
  have hwords := waiting_words (outline statement) hsettled [outer.id] []
  rw [List.append_nil, waiting] at hwords
  rw [elseOwner, waiting, hwords, ← Outline.pending_eq_nil_iff]
  cases hpending : (outline statement).pending with
  | nil => simp
  | cons i rest =>
    have hi : i ≠ outer.id := hnew i (by simp [hpending])
    simp [hi]

end Leading

section Replaced

variable {source : Source} {cst : Cst} {tree : Tree} {root place condition : Place} {id : Nat}
  {r : Replacement} {sites : List Site} {borrowed : List Place} {s : Statement}

theorem Replaced.position_target (h : Replaced tree id r place condition sites borrowed)
    (hs : s ∈ r.statements) {c : Conditional} (hc : c ∈ s.substitutions) :
    position? c.target ≠ none := by
  rw [h.statements] at hs
  obtain ⟨t, _, rfl⟩ := List.mem_map.1 hs
  obtain ⟨site, hsite, rfl⟩ := List.mem_map.1 hc
  obtain ⟨parts, rfl, _, hback⟩ := classify_of_sitesOf h.sited
  obtain ⟨part, hpart, hsp⟩ := List.mem_flatten.1 (List.mem_filter.1 hsite).1
  obtain ⟨i, hi⟩ := List.mem_iff_getElem?.1 hpart
  obtain ⟨u, v, _, _, hclass⟩ := hback i part hi
  obtain ⟨climbed, hclimb, rfl⟩ := fold_of_classify hclass
  obtain ⟨d, _, hd⟩ := (climb_of_mem_climbAll hclimb).1 site (mem_of_mem_fold hsp)
  obtain ⟨levels, hlevels⟩ := climbed_of_climb hd
  have hpos : position? site.before = some site.position := hlevels.position_before
  exact fun hnone => by simp [hpos] at hnone

theorem position?_thenBranch {t : Place} (hif : place.kind = .ifStatement)
    (ht : t ∈ thenBranch place) : position? t = none := by
  unfold thenBranch at ht
  split at ht
  · rename_i consequence hc
    unfold branchStatements at ht
    split at ht
    · rename_i hblock
      exact position?_eq_none (List.mem_filter.1 ht).1 (Or.inr (Or.inl hblock))
    · rw [List.mem_singleton.1 ht]
      exact position?_eq_none (mem_children_of_childByField hc) (Or.inl hif)
  · simp at ht

theorem Replaced.template_not_target (hl : Lowered source cst tree root)
    (h : Replaced tree id r place condition sites borrowed) (hs : s ∈ r.statements)
    (expression : Conditional → Shape) :
    (s.substitutions.find? (·.target.id == s.template.id)).map expression = none := by
  obtain ⟨htemplate, hsubs⟩ := h.mem_below hl hs
  have hdist := hl.distinct.of_mem_below htemplate
  rw [Option.map_eq_none_iff, List.find?_eq_none]
  intro c hc hid
  have heq : c.target = s.template :=
    hdist.eq (hsubs c hc).2.1 s.template.mem_below_self (by simpa using hid)
  have htop : position? s.template = none := by
    rw [h.statements] at hs
    obtain ⟨t, ht, rfl⟩ := List.mem_map.1 hs
    exact position?_thenBranch h.isIf ht
  exact h.position_target hs hc (heq ▸ htop)

theorem Replaced.outline_filled (hl : Lowered source cst tree root)
    (h : Replaced tree id r place condition sites borrowed) (hs : s ∈ r.statements)
    (expression : Conditional → Shape) :
    outline (s.filled expression) = outline s.template.here := by
  obtain ⟨htemplate, hsubs⟩ := h.mem_below hl hs
  have hdist := hl.distinct.of_mem_below htemplate
  refine outline_graft (h.template_not_target hl hs expression) ?_
  intro q hq hsome
  obtain ⟨_, hz⟩ := Option.ne_none_iff_exists'.1 hsome
  obtain ⟨c, hc, _⟩ := Option.map_eq_some_iff.1 hz
  have hmem := List.mem_of_find?_eq_some hc
  have hid : c.target.id = q.id := by simpa using List.find?_some hc
  rw [← hdist.eq (hsubs c hmem).2.1 hq hid]
  exact h.position_target hs hmem

theorem Replaced.single_of_parent (h : Replaced tree id r place condition sites borrowed)
    {parent : Place} (hp : place ∈ parent.children) (hk : parent.kind.isSequence = false) :
    ∃ t, thenBranch place = [t] := by
  have hfits := h.fitting
  simp only [fits, parent?_of_mem_children hp, Option.any_some, hk, Bool.false_or] at hfits
  split at hfits
  · rename_i t ht
    exact ⟨t, ht⟩
  · simp at hfits

end Replaced

/-- Let every `if` of a tree be read in the only way there is, and let one that stands in front of
the `else` of an outer `if` be replaced. Then the `else` stays where it is, whatever expressions are
put in, exactly if the statement that is put in does not end in an `if` without `else`; and only
braces can have kept such an `if` away from it. -/
theorem keeps_else_iff {source : Source} {cst : Cst} {tree : Tree} {outer place : Place} {id : Nat}
    {r : Replacement} (htree : Tree.ofCst source cst = .ok tree)
    (hsettled : ∀ p ∈ tree.places, (outline p.here).settled = true)
    (hget : tree.get? id = some place) (houter : BeforeElse outer place)
    (h : evaluate tree id = .ok (.replace r)) :
    ∃ s, r.statements = [s] ∧ elseOwner outer place.here = some outer.id ∧
      (∀ consequence, place.childByField? "consequence" = some consequence →
        consequence.kind ≠ .block → (outline s.template.here).endsOpen = false) ∧
      ∀ expression, (outline s.template.here).endsOpen = false ↔
        elseOwner outer (s.filled expression) = some outer.id := by
  obtain ⟨root, hl⟩ := lowered_of_ofCst htree
  obtain ⟨found, condition, sites, borrowed, hr⟩ := replaced_of_evaluate h
  have hfound : place = found := Option.some.inj (hget.symm.trans hr.get)
  subst hfound
  rw [hl.places_eq] at hsettled
  obtain ⟨parent, hparent, hsequence⟩ := houter.parent
  obtain ⟨t, ht⟩ := hr.single_of_parent hparent hsequence
  obtain ⟨s, hs, hst⟩ : ∃ s, r.statements = [s] ∧ s.template = t := by
    rw [hr.statements, ht]
    exact ⟨_, rfl, rfl⟩
  obtain ⟨c, hc, hplace⟩ := houter.mem_child
  have hplaceroot := hl.mem_below hr.get
  have houterroot : outer ∈ root.below := by
    have hline := (Place.line_suffix_of_mem_below (Place.mem_below_of_child hc hplace))
    exact (Place.ancestor_mem_below hl.top hplaceroot hline).1
  -- what lies in the place has other numbers than the outer `if`
  have hnew : ∀ q ∈ place.below, ∀ i ∈ (outline q.here).pending, i ≠ outer.id := by
    intro q hq i hi hid
    obtain ⟨x, hx, hxid⟩ := exists_of_mem_pending hi
    have hxplace := Place.below_trans hq hx
    have hxouter :=
      hl.distinct.eq (Place.below_trans hplaceroot hxplace) houterroot (hxid.trans hid)
    rw [hxouter] at hxplace
    exact Place.not_mem_below_child hc (Place.below_trans hplace hxplace)
  obtain ⟨other, hother⟩ := houter.outline_outer
  have hclosed : (outline place.here).endsOpen = false := by
    have hsplit := hsettled outer houterroot
    simp only [hother, Outline.settled, Bool.and_eq_true, Bool.not_eq_true'] at hsplit
    exact hsplit.1.2
  have htbelow : t ∈ place.below := mem_below_of_thenBranch (by simp [ht])
  refine ⟨s, hs, ?_, ?_, ?_⟩
  · exact (elseOwner_iff (hsettled place hplaceroot) (hnew place place.mem_below_self)).1 hclosed
  · intro consequence hcons hblock
    have htcons : t = consequence := by
      have hthen := ht
      rw [thenBranch, hcons] at hthen
      simpa [branchStatements, hblock] using hthen.symm
    have hplaced := hsettled place hplaceroot
    cases ha : place.childByField? "alternative" with
    | none =>
      have hnode := isToken_of_mem_children (mem_children_of_childByField hcons)
      rw [outline_node hnode, hr.isIf, ha] at hclosed
      simp [Outline.endsOpen] at hclosed
    | some a =>
      simp only [outline_twoArmed hr.isIf hcons ha, Outline.settled, Bool.and_eq_true,
        Bool.not_eq_true'] at hplaced
      rw [hst, htcons]
      exact hplaced.1.2
  · intro expression
    have houtline := hr.outline_filled hl (s := s) (by simp [hs]) expression
    rw [← houtline]
    rw [hst] at houtline
    apply elseOwner_iff
    · rw [houtline]
      exact hsettled t (Place.below_trans hplaceroot htbelow)
    · rw [houtline]
      exact hnew t htbelow

/-- The tree of `if (a) if (c) { … } else { … } else g();` around two statements of one length. -/
def nestedIf (length : Nat) (statement : Nat → Cst) : Cst :=
  .part "if_statement" 0 (length + length + 38) none [
    .mark "if" 0, condition 3,
    .part "if_statement" 7 (length + length + 21) (some "consequence") [
      .mark "if" 7, condition 10, braces 14 "consequence", .mark "else" (length + 19),
      braces (length + 24) "alternative"],
    .mark "else" (length + length + 29),
    .part "expression_statement" (length + length + 34) 4 (some "alternative") [
      call (length + length + 34), .mark ";" (length + length + 37)]]
where
  condition (start : Nat) : Cst :=
    .part "parenthesized_expression" start 3 (some "condition") [
      .mark "(" start, .part "identifier" (start + 1) 1 none [], .mark ")" (start + 2)]
  call (start : Nat) : Cst :=
    .part "method_invocation" start 3 none [
      .part "identifier" start 1 (some "name") [],
      .part "argument_list" (start + 1) 2 (some "arguments") [
        .mark "(" (start + 1), .mark ")" (start + 2)]]
  braces (start : Nat) (field : String) : Cst :=
    .part "block" start (length + 4) (some field) [
      .mark "\x7b" start, statement (start + 2), .mark "\x7d" (start + length + 3)]

/-- The tree of `if (x) f();`. -/
def innerIf (start : Nat) : Cst :=
  .part "if_statement" start 11 none [
    .mark "if" start, nestedIf.condition (start + 3),
    .part "expression_statement" (start + 7) 4 (some "consequence") [
      nestedIf.call (start + 7), .mark ";" (start + 10)]]

/-- The tree of `while (z) f(x);`. -/
def innerLoop (start : Nat) : Cst :=
  .part "while_statement" start 15 none [
    .mark "while" start, nestedIf.condition (start + 6),
    .part "expression_statement" (start + 10) 5 (some "body") [
      .part "method_invocation" (start + 10) 4 none [
        .part "identifier" (start + 10) 1 (some "name") [],
        .part "argument_list" (start + 11) 3 (some "arguments") [
          .mark "(" (start + 11), .part "identifier" (start + 12) 1 none [],
          .mark ")" (start + 13)]],
      .mark ";" (start + 14)]]

def nestedIfText : Source :=
  .ofText "if (a) if (c) \x7b if (x) f(); \x7d else \x7b if (y) f(); \x7d else g();".toList

def nestedLoopText : Source :=
  .ofText
    "if (a) if (c) \x7b while (z) f(x); \x7d else \x7b while (z) f(y); \x7d else g();".toList

def isConsequenceBeforeElse (tree : Tree) (id : Nat) : Bool :=
  (tree.get? 0).any fun outer => outer.kind == .ifStatement &&
    (outer.childByField? "alternative").isSome &&
    (outer.childByField? "consequence").any (·.id == id)

theorem beforeElse_of_consequence {source : Source} {cst : Cst} {tree : Tree} {place : Place}
    {id : Nat} (htree : Tree.ofCst source cst = .ok tree) (hget : tree.get? id = some place)
    (hid : place.id = id) (h : isConsequenceBeforeElse tree id = true) :
    ∃ outer, tree.get? 0 = some outer ∧ BeforeElse outer place := by
  obtain ⟨root, hl⟩ := lowered_of_ofCst htree
  simp only [isConsequenceBeforeElse, Option.any_eq_true, Bool.and_eq_true, beq_iff_eq] at h
  obtain ⟨outer, houter, ⟨hif, helse⟩, c, hc, hcid⟩ := h
  have hcroot := Place.below_trans (hl.mem_below houter)
    (Place.child_mem_below (mem_children_of_childByField hc))
  have hcplace : c = place := hl.distinct.eq hcroot (hl.mem_below hget) (hcid.trans hid.symm)
  exact ⟨outer, houter, hif, helse, c, hc, hcplace ▸ .here⟩

theorem loop_keeps_else : ∃ tree outer place r s,
    Tree.ofCst nestedLoopText (nestedIf 15 innerLoop) = .ok tree ∧
    (∀ p ∈ tree.places, (outline p.here).settled = true) ∧ tree.get? 7 = some place ∧
    BeforeElse outer place ∧ evaluate tree 7 = .ok (.replace r) ∧ r.statements = [s] ∧
    ∀ expression, elseOwner outer (s.filled expression) = some outer.id := by
  have hcheck : (replacementAt? nestedLoopText (nestedIf 15 innerLoop) 7).any (fun found =>
      (found.1.places.all fun p => (outline p.here).settled) &&
        isConsequenceBeforeElse found.1 7 && (found.1.get? 7).all (·.id == 7) &&
        found.2.statements.all fun s => !(outline s.template.here).endsOpen) = true := by
    decide +kernel
  obtain ⟨tree, r, htree, heval, hfound⟩ := exists_of_replacementAt? hcheck
  simp only [Bool.and_eq_true, List.all_eq_true, Bool.not_eq_true'] at hfound
  obtain ⟨⟨⟨hsettled, hstands⟩, hid⟩, hclosed⟩ := hfound
  obtain ⟨place, _, _, _, hr⟩ := replaced_of_evaluate heval
  rw [hr.get, Option.all_some, beq_iff_eq] at hid
  obtain ⟨outer, _, houter⟩ := beforeElse_of_consequence htree hr.get hid hstands
  obtain ⟨s, hs, _, _, hiff⟩ := keeps_else_iff htree hsettled hr.get houter heval
  refine ⟨tree, outer, place, r, s, htree, hsettled, hr.get, houter, heval, hs, ?_⟩
  intro expression
  exact (hiff expression).1 (hclosed s (by simp [hs]))

/-- The replacement `if (c ? x : y) f();` takes the `else` that belongs to `if (a)`. -/
theorem inner_if_takes_else : ∃ tree outer place r s,
    Tree.ofCst nestedIfText (nestedIf 11 innerIf) = .ok tree ∧ tree.get? 7 = some place ∧
    BeforeElse outer place ∧ evaluate tree 7 = .ok (.replace r) ∧ r.statements = [s] ∧
    elseOwner outer place.here = some outer.id ∧ s.template.id ≠ outer.id ∧
    ∀ expression, elseOwner outer (s.filled expression) = some s.template.id := by
  have hcheck : (replacementAt? nestedIfText (nestedIf 11 innerIf) 7).any (fun found =>
      isConsequenceBeforeElse found.1 7 && (found.1.get? 7).all (·.id == 7) &&
        found.2.statements.length == 1 && (found.1.get? 0).all fun outer =>
          (found.1.get? 7).all (fun place => elseOwner outer place.here == some outer.id) &&
          found.2.statements.all fun s => s.template.id != outer.id &&
            elseOwner outer s.template.here == some s.template.id) = true := by
    decide +kernel
  obtain ⟨tree, r, htree, heval, hfound⟩ := exists_of_replacementAt? hcheck
  simp only [Bool.and_eq_true, beq_iff_eq] at hfound
  obtain ⟨⟨⟨hstands, hid⟩, hlength⟩, howner⟩ := hfound
  obtain ⟨root, hl⟩ := lowered_of_ofCst htree
  obtain ⟨place, _, _, _, hr⟩ := replaced_of_evaluate heval
  rw [hr.get, Option.all_some, beq_iff_eq] at hid
  obtain ⟨outer, hget, houter⟩ := beforeElse_of_consequence htree hr.get hid hstands
  obtain ⟨s, hs⟩ := List.length_eq_one_iff.1 hlength
  simp only [hget, hr.get, hs, Option.all_some, List.all_cons, List.all_nil, Bool.and_true,
    Bool.and_eq_true, bne_iff_ne, beq_iff_eq] at howner
  obtain ⟨hbefore, hother, hafter⟩ := howner
  refine ⟨tree, outer, place, r, s, htree, hr.get, houter, heval, hs, hbefore, hother, ?_⟩
  intro expression
  rw [elseOwner, hr.outline_filled hl (by simp [hs]) expression]
  exact hafter

end IfCollapse.Branch
