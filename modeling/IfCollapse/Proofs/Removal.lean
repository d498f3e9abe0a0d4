import IfCollapse.Proofs.Borrowing
import IfCollapse.Proofs.Substitution

/-! What a replacement takes away. The replaced span goes from the `if` to the end of the last
borrowed statement. Every node that it touches is removed or is an ancestor of the `if`, so all other
nodes stand in the text after the fix. -/

namespace IfCollapse

namespace Span

def Overlaps (s t : Span) : Prop :=
  s.start < t.stop ∧ t.start < s.stop

/-- Where a span beside `hole` lies after `length` bytes were put in the place of `hole`. -/
def moved (s hole : Span) (length : Nat) : Span :=
  if s.stop ≤ hole.start then s
  else (s.within (empty hole.stop)).shift (hole.start + length)

end Span

theorem slice_moved {left middle right content part : List Char} {s hole : Span}
    (hstart : hole.start = byteLength left) (hstop : hole.stop = byteLength (left ++ middle))
    (h : slice (left ++ middle ++ right) s = .ok part)
    (hbeside : s.stop ≤ hole.start ∨ hole.stop ≤ s.start) :
    slice (left ++ content ++ right) (s.moved hole (byteLength content)) = .ok part := by
  by_cases hbefore : s.stop ≤ hole.start
  · have hleft : slice (left ++ middle ++ right) ⟨0, hole.start, Nat.zero_le _⟩ = .ok left :=
      slice_eq_ok.2 ⟨[], middle ++ right, by simp, rfl, hstart⟩
    have hpart := slice_within hleft (Span.includes_iff.2 ⟨Nat.zero_le _, hbefore⟩) h
    rw [Span.moved, if_pos hbefore, List.append_assoc]
    exact slice_append_right hpart
  · have hbehind : hole.stop ≤ s.start := hbeside.resolve_left hbefore
    have hright : slice (left ++ middle ++ right)
        ⟨hole.stop, byteLength (left ++ middle ++ right), by simp [hstop]⟩ = .ok right :=
      slice_eq_ok.2 ⟨left ++ middle, [], by simp, hstop, by simp⟩
    have hpart := slice_within hright (Span.includes_iff.2 ⟨hbehind, stop_le_of_slice h⟩) h
    have hnew : slice (left ++ content ++ right)
        ⟨hole.start + byteLength content, byteLength (left ++ content ++ right), by
          simp [hstart, ← Nat.add_assoc]⟩ = .ok right :=
      slice_eq_ok.2 ⟨left ++ content, [], by simp, by simp [hstart], by simp⟩
    rw [Span.moved, if_neg hbefore]
    exact slice_shift hnew hpart

theorem exists_splice_keeping {text : List Char} {hole : Span} (content : List Char)
    (hstart : isBoundary text hole.start = true) (hstop : isBoundary text hole.stop = true) :
    ∃ fixed, splice text hole content = .ok fixed ∧
      ∀ s part, slice text s = .ok part → s.stop ≤ hole.start ∨ hole.stop ≤ s.start →
        slice fixed (s.moved hole (byteLength content)) = .ok part := by
  obtain ⟨left, middle, right, rfl, hleft, hmiddle⟩ := exists_between hstart hstop hole.ordered
  refine ⟨left ++ content ++ right, splice_eq left middle right content hleft hmiddle, ?_⟩
  intro s part hpart hbeside
  exact slice_moved hleft hmiddle hpart hbeside

namespace Java.Place

variable {root p x : Place} {nodes : List Place}

theorem pairwise_children (h : p.here.Ordered) :
    p.children.Pairwise fun a b => a.span.stop ≤ b.span.start := by
  rw [List.pairwise_iff_getElem]
  intro i j hi hj hij
  exact stop_le_start_of_children h hij (List.getElem?_eq_getElem hi) (List.getElem?_eq_getElem hj)
    (mem_below_self _) (mem_below_self _)

theorem FollowedBy.pairwise (h : p.FollowedBy nodes) (htop : root.above = [])
    (hord : root.here.Ordered) (hp : p ∈ root.below) :
    (p :: nodes).Pairwise fun a b => a.span.stop ≤ b.span.start := by
  obtain ⟨parent, earlier, behind, hparent, hsplit, rfl⟩ := h
  have hproot := (child_of_parent? htop hp hparent).1
  have hall := pairwise_children (span_of_mem_below hord hproot).1
  rw [hsplit] at hall
  have hpart : (p :: behind.filter fun c => !c.isToken).Sublist (earlier ++ p :: behind) :=
    (List.filter_sublist.cons_cons p).trans (List.sublist_append_right earlier _)
  exact hall.sublist hpart

theorem eq_or_mem_ancestors (h : p ∈ x.below) : x = p ∨ x ∈ p.ancestors := by
  have hmem : x ∈ p.lineage := mem_chain_iff.2 (line_suffix_of_mem_below h)
  exact List.mem_cons.1 hmem

theorem eq_of_isToken (h : p.isToken = true) (hx : x ∈ p.below) : x = p := by
  rw [below_eq, children_of_isToken h] at hx
  simpa using hx

theorem cases_of_sibling {parent c : Place} {earlier behind : List Place}
    (hord : parent.here.Ordered) (hsplit : parent.children = earlier ++ p :: behind)
    (hc : c ∈ parent.children) (hx : x ∈ c.below) (hnode : x.isToken = false) :
    x.span.stop ≤ p.span.start ∨ ∃ d ∈ p :: behind.filter (fun c => !c.isToken), x ∈ d.below := by
  have hinner := span_of_mem_below (span_of_mem_below hord (child_mem_below hc)).1 hx
  have hsorted := pairwise_children hord
  rw [hsplit] at hc hsorted
  cases List.mem_append.1 hc with
  | inl hearlier =>
    have hle := (List.pairwise_append.1 hsorted).2.2 c hearlier p List.mem_cons_self
    exact Or.inl (Nat.le_trans hinner.2.2 hle)
  | inr hlater =>
    cases List.mem_cons.1 hlater with
    | inl heq => exact Or.inr ⟨p, List.mem_cons_self, heq ▸ hx⟩
    | inr hbehind =>
      -- there is nothing but the token itself in a token
      have hcnode : c.isToken = false := by
        by_contra htoken
        rw [Bool.not_eq_false] at htoken
        rw [eq_of_isToken htoken hx, htoken] at hnode
        simp at hnode
      have hmem : c ∈ behind.filter fun c => !c.isToken :=
        List.mem_filter.2 ⟨hbehind, by simp [hcnode]⟩
      exact Or.inr ⟨c, List.mem_cons_of_mem p hmem, hx⟩

theorem FollowedBy.cases {rest : List Place} (h : p.FollowedBy (nodes ++ rest))
    (htop : root.above = []) (hord : root.here.Ordered) (hp : p ∈ root.below)
    (hx : x ∈ root.below) (hnode : x.isToken = false) :
    p ∈ x.below ∨ (∃ d ∈ p :: nodes, x ∈ d.below) ∨ x.span.stop ≤ p.span.start ∨
      ∀ d ∈ p :: nodes, d.span.stop ≤ x.span.start := by
  have hsorted := h.pairwise htop hord hp
  rw [← List.cons_append, List.pairwise_append] at hsorted
  obtain ⟨parent, earlier, behind, hparent, hsplit, hnodes⟩ := h
  obtain ⟨hproot, hchild⟩ := child_of_parent? htop hp hparent
  have hpord := (span_of_mem_below hord hproot).1
  have hinside : ∀ d ∈ p :: (nodes ++ rest), d.here.Ordered ∧
      parent.span.start ≤ d.span.start ∧ d.span.stop ≤ parent.span.stop := by
    intro d hd
    rw [← hnodes] at hd
    have hdchild : d ∈ parent.children := by
      rw [hsplit]
      exact List.mem_append_right earlier ((List.filter_sublist.cons_cons p).subset hd)
    exact span_of_mem_below hpord (child_mem_below hdchild)
  cases nested_or_apart hord hproot hx with
  | inl hin =>
    cases mem_below_iff.1 hin with
    | inl heq => exact Or.inl (heq ▸ child_mem_below hchild)
    | inr hbelow =>
      obtain ⟨c, hc, hxc⟩ := hbelow
      cases cases_of_sibling hpord hsplit hc hxc hnode with
      | inl hbefore => exact Or.inr (Or.inr (Or.inl hbefore))
      | inr hwithin =>
        obtain ⟨d, hd, hxd⟩ := hwithin
        rw [hnodes] at hd
        have hdx := (span_of_mem_below (hinside d hd).1 hxd).2.1
        rw [← List.cons_append, List.mem_append] at hd
        cases hd with
        | inl hnext => exact Or.inr (Or.inl ⟨d, hnext, hxd⟩)
        | inr hrest =>
          exact Or.inr (Or.inr (Or.inr fun a ha => Nat.le_trans (hsorted.2.2 a ha d hrest) hdx))
  | inr hother =>
    cases hother with
    | inl hout => exact Or.inl (below_trans hout (child_mem_below hchild))
    | inr hapart =>
      cases hapart with
      | inl hlater =>
        refine Or.inr (Or.inr (Or.inr ?_))
        intro d hd
        have hd' : d ∈ p :: (nodes ++ rest) := List.mem_append_left rest hd
        exact Nat.le_trans (hinside d hd').2.2 hlater
      | inr hbefore =>
        have hle := (hinside p List.mem_cons_self).2.1
        exact Or.inr (Or.inr (Or.inl (Nat.le_trans hbefore hle)))

end Java.Place

namespace Branch

open Java

theorem exists_greatestStop {first : Place} {places : List Place}
    (h : (first :: places).Pairwise fun a b => a.span.stop ≤ b.span.start) :
    ∃ last, (first :: places).getLast? = some last ∧
      places.foldl (fun stop p => max stop p.span.stop) first.span.stop = last.span.stop ∧
      ∀ d ∈ first :: places, first.span.start ≤ d.span.start ∧ d.span.stop ≤ last.span.stop := by
  induction places generalizing first with
  | nil => exact ⟨first, rfl, rfl, by simp⟩
  | cons p places ih =>
    obtain ⟨hfirst, hrest⟩ := List.pairwise_cons.1 h
    obtain ⟨last, hlast, hstop, hall⟩ := ih hrest
    have hle := hfirst p List.mem_cons_self
    have hp := p.span.ordered
    have hordered := first.span.ordered
    refine ⟨last, by rw [List.getLast?_cons_cons, hlast], ?_, ?_⟩
    · rw [List.foldl_cons, Nat.max_eq_right (Nat.le_trans hle hp), hstop]
    · intro d hd
      have hplast := (hall p List.mem_cons_self).2
      cases List.mem_cons.1 hd with
      | inl heq =>
        subst heq
        omega
      | inr hin =>
        have hd := hall d hin
        omega

/-- What a replacement takes away: the `if` and the borrowed statements, which follow it, and no
other node. -/
structure RemovesOnly (tree : Tree) (place : Place) (r : Replacement) (span : Span) : Prop where
  removals : r.removals = place :: r.borrowed
  borrowed : (place.childByField? "alternative").isSome = true ∧ r.borrowed = [] ∨
    place.childByField? "alternative" = none ∧ ∃ rest, place.FollowedBy (r.borrowed ++ rest)
  starts : span.start = place.span.start
  stops : ∃ last, r.removals.getLast? = some last ∧ span.stop = last.span.stop
  templates : ∀ s ∈ r.statements, span.includes s.template.span = true
  elses : ∀ e ∈ elseBranch place, span.includes e.span = true
  touched : ∀ x ∈ tree.places, x.isToken = false → span.Overlaps x.span →
    x ∈ place.ancestors ∨ ∃ d ∈ r.removals, x ∈ d.below
  /-- Every other node is in the text after the fix. -/
  kept : ∀ content, ∃ fixed, splice tree.source.text span content = .ok fixed ∧
    ∀ x ∈ tree.places, x.isToken = false → x ∉ place.ancestors →
      (∀ d ∈ r.removals, x ∉ d.below) →
        slice fixed (x.span.moved span (byteLength content)) = .ok x.text

section Removal

variable {source : Source} {cst : Cst} {tree : Tree} {root place condition : Place} {id : Nat}
  {r : Replacement} {sites : List Site} {borrowed : List Place} {span : Span}

theorem Replaced.removals_eq (h : Replaced tree id r place condition sites borrowed) :
    r.removals = place :: r.borrowed := by
  rw [h.built]
  rfl

theorem Replaced.pairwise_removals (hl : Lowered source cst tree root) (hord : root.here.Ordered)
    (h : Replaced tree id r place condition sites borrowed) :
    r.removals.Pairwise fun a b => a.span.stop ≤ b.span.start := by
  have hp := hl.mem_below h.get
  rw [h.removals_eq]
  cases h.borrowed_cases with
  | inl halternative =>
    obtain ⟨_, _, hnone⟩ := halternative
    rw [hnone]
    exact List.pairwise_singleton _ _
  | inr hborrowed =>
    obtain ⟨rest, hrest⟩ := hborrowed.1.exists_followedBy hl hp
    have hpart : (place :: r.borrowed).Sublist (place :: (r.borrowed ++ rest)) :=
      (List.sublist_append_left r.borrowed rest).cons_cons place
    exact (hrest.pairwise hl.top hord hp).sublist hpart

theorem Replaced.beside (hl : Lowered source cst tree root) (hord : root.here.Ordered)
    (h : Replaced tree id r place condition sites borrowed) {x : Place} (hx : x ∈ root.below)
    (hnode : x.isToken = false) :
    place ∈ x.below ∨ (∃ d ∈ r.removals, x ∈ d.below) ∨ x.span.stop ≤ place.span.start ∨
      ∀ d ∈ r.removals, d.span.stop ≤ x.span.start := by
  have hp := hl.mem_below h.get
  rw [h.removals_eq]
  cases h.borrowed_cases with
  | inl halternative =>
    obtain ⟨_, _, hnone⟩ := halternative
    rw [hnone]
    have hrelation := Place.nested_or_apart hord hp hx
    simp only [List.mem_singleton, exists_eq_left, forall_eq]
    tauto
  | inr hborrowed =>
    obtain ⟨rest, hrest⟩ := hborrowed.1.exists_followedBy hl hp
    exact hrest.cases hl.top hord hp hx hnode

theorem Replaced.removal_mem (hl : Lowered source cst tree root)
    (h : Replaced tree id r place condition sites borrowed) {d : Place} (hd : d ∈ r.removals) :
    d ∈ root.below := by
  rw [h.removals_eq] at hd
  cases List.mem_cons.1 hd with
  | inl heq => exact heq ▸ hl.mem_below h.get
  | inr hborrowed => exact h.borrowed_mem hl hborrowed

theorem Replaced.exists_extent (hl : Lowered source cst tree root) (hord : root.here.Ordered)
    (h : Replaced tree id r place condition sites borrowed) :
    ∃ span last, r.span = .ok span ∧ span.start = place.span.start ∧
      r.removals.getLast? = some last ∧ span.stop = last.span.stop ∧
      ∀ d ∈ r.removals, ∀ y ∈ d.below, span.includes y.span = true := by
  obtain ⟨last, hlast, hgreatest, hall⟩ := exists_greatestStop (h.pairwise_removals hl hord)
  obtain ⟨span, hspan⟩ := r.exists_span
  obtain ⟨hfirst, hend⟩ := Span.make_eq_ok.1 hspan
  have hif : r.ifStatement = place := List.head_eq_of_cons_eq h.removals_eq
  refine ⟨span, last, hspan, by rw [hfirst, hif], hlast, hend.trans hgreatest, ?_⟩
  intro d hd y hy
  have hdo := (Place.span_of_mem_below hord (h.removal_mem hl hd)).1
  have hinner := (Place.span_of_mem_below hdo hy).2
  have houter := hall d hd
  rw [Span.includes_iff]
  omega

theorem Replaced.outside_extent (hl : Lowered source cst tree root) (hord : root.here.Ordered)
    (h : Replaced tree id r place condition sites borrowed) {x last : Place}
    (hstart : span.start = place.span.start) (hlast : r.removals.getLast? = some last)
    (hstop : span.stop = last.span.stop) (hx : x ∈ tree.places) (hnode : x.isToken = false) :
    x ∈ place.ancestors ∨ (∃ d ∈ r.removals, x ∈ d.below) ∨ x.span.stop ≤ span.start ∨
      span.stop ≤ x.span.start := by
  rw [hl.places_eq] at hx
  rw [hstart, hstop]
  cases h.beside hl hord hx hnode with
  | inl haround =>
    cases Place.eq_or_mem_ancestors haround with
    | inl heq =>
      have hremoved : place ∈ r.removals := by
        rw [h.removals_eq]
        exact List.mem_cons_self
      exact Or.inr (Or.inl ⟨place, hremoved, heq ▸ x.mem_below_self⟩)
    | inr hancestor => exact Or.inl hancestor
  | inr hother =>
    cases hother with
    | inl hremoved => exact Or.inr (Or.inl hremoved)
    | inr hapart =>
      cases hapart with
      | inl hbefore => exact Or.inr (Or.inr (Or.inl hbefore))
      | inr hlater =>
        exact Or.inr (Or.inr (Or.inr (hlater last (List.mem_of_getLast? hlast))))

theorem Replaced.branches_removed (h : Replaced tree id r place condition sites borrowed)
    {s : Place} (hs : s ∈ thenBranch place ++ elseBranch place) :
    ∃ d ∈ r.removals, s ∈ d.below := by
  rw [h.removals_eq]
  cases List.mem_append.1 hs with
  | inl hthen => exact ⟨place, List.mem_cons_self, mem_below_of_thenBranch hthen⟩
  | inr helse =>
    cases h.borrowed_cases with
    | inl halternative =>
      obtain ⟨alternative, ha, _⟩ := halternative
      rw [elseBranch, ha] at helse
      have hin := Place.below_trans (Place.child_mem_below (mem_children_of_childByField ha))
        (mem_below_of_branchStatements helse)
      exact ⟨place, List.mem_cons_self, hin⟩
    | inr hborrowed =>
      rw [hborrowed.2] at helse
      exact ⟨s, List.mem_cons_of_mem place helse, s.mem_below_self⟩

end Removal

/-- A replacement removes the `if` and the statements that it borrowed, and no other node. -/
theorem evaluate_removes_only {source : Source} {cst : Cst} {tree : Tree} {id : Nat}
    {r : Replacement} (htree : Tree.ofCst source cst = .ok tree) (hw : cst.WellFormed)
    (h : evaluate tree id = .ok (.replace r)) :
    ∃ place span, tree.get? id = some place ∧ r.span = .ok span ∧
      RemovesOnly tree place r span := by
  obtain ⟨root, hl⟩ := lowered_of_ofCst htree
  obtain ⟨place, condition, sites, borrowed, hr⟩ := replaced_of_evaluate h
  have hord := hl.ordered hw
  obtain ⟨span, last, hspan, hstart, hlast, hstop, hinside⟩ := hr.exists_extent hl hord
  have hbranches : ∀ s ∈ thenBranch place ++ elseBranch place, span.includes s.span = true := by
    intro s hs
    obtain ⟨d, hd, hsd⟩ := hr.branches_removed hs
    exact hinside d hd s hsd
  refine ⟨place, span, hr.get, hspan, ?_⟩
  constructor
  case removals => exact hr.removals_eq
  case borrowed =>
    cases hr.borrowed_cases with
    | inl halternative =>
      obtain ⟨alternative, ha, hnone⟩ := halternative
      exact Or.inl ⟨by rw [ha]; rfl, hnone⟩
    | inr hborrowed =>
      have hrest := hborrowed.1.exists_followedBy hl (hl.mem_below hr.get)
      exact Or.inr ⟨hborrowed.1.noElse, hrest⟩
  case starts => exact hstart
  case stops => exact ⟨last, hlast, hstop⟩
  case templates =>
    intro s hs
    rw [hr.statements] at hs
    obtain ⟨t, ht, rfl⟩ := List.mem_map.1 hs
    exact hbranches t (List.mem_append_left _ ht)
  case elses => exact fun e he => hbranches e (List.mem_append_right _ he)
  case touched =>
    intro x hx hnode hoverlap
    have hcases := hr.outside_extent hl hord hstart hlast hstop hx hnode
    simp only [Span.Overlaps] at hoverlap
    grind
  case kept =>
    intro content
    obtain ⟨hfirst, hend⟩ := hr.boundaries_span hl hspan
    rw [hl.source_eq]
    obtain ⟨fixed, hfixed, hkept⟩ := exists_splice_keeping content hfirst hend
    refine ⟨fixed, hfixed, ?_⟩
    intro x hx hnode haround hremoved
    have hbeside : x.span.stop ≤ span.start ∨ span.stop ≤ x.span.start := by
      have hcases := hr.outside_extent hl hord hstart hlast hstop hx hnode
      grind
    exact hkept x.span x.text (hl.texts x (hl.places_eq ▸ hx)) hbeside

/-- The `if` and the `return` behind it are replaced, and the empty statement between them goes with
them. The last `return` stands behind the new text. -/
theorem last_return_is_kept : ∃ tree r place span x fixed,
    returnsTree.WellFormed ∧ Tree.ofCst returnsText returnsTree = .ok tree ∧
    evaluate tree 2 = .ok (.replace r) ∧ tree.get? 2 = some place ∧ r.span = .ok span ∧
    RemovesOnly tree place r span ∧ r.removals.map Place.id = [2, 15] ∧
    span.start = 2 ∧ span.stop = 30 ∧ tree.get? 20 = some x ∧
    splice tree.source.text span "return c ? a : b;".toList = .ok fixed ∧
    fixed = "\x7b return c ? a : b; return d; \x7d".toList ∧
    slice fixed (x.span.moved span 17) = .ok "return d;".toList := by
  have hcheck : (replacementAt? returnsText returnsTree 2).any (fun found =>
      (found.1.get? 2).any fun place => (found.1.get? 20).any fun x =>
        found.2.span.toOption.any fun span =>
          found.2.removals.map Place.id == [2, 15] && span.start == 2 && span.stop == 30 &&
            !x.isToken && x.text == "return d;".toList &&
            !(place.ancestors.map Place.id).contains x.id &&
            found.2.removals.all (fun d => !(d.below.map Place.id).contains x.id) &&
            (splice found.1.source.text span "return c ? a : b;".toList).toOption ==
              some "\x7b return c ? a : b; return d; \x7d".toList) = true := by
    decide +kernel
  have hw : returnsTree.WellFormed := by decide
  obtain ⟨tree, r, htree, heval, hfound⟩ := exists_of_replacementAt? hcheck
  simp only [Bool.and_eq_true, Option.any_eq_true, List.all_eq_true, Bool.not_eq_true',
    beq_iff_eq, toOption_eq_some, List.contains_eq_mem, decide_eq_false_iff_not] at hfound
  obtain ⟨place, hget, x, hx, span, hspan, ⟨⟨⟨⟨⟨⟨hids, hstart⟩, hstop⟩, hnode⟩, htext⟩, haround⟩,
    hremoved⟩, hfixed⟩ := hfound
  obtain ⟨place', span', hget', hspan', honly⟩ := evaluate_removes_only htree hw heval
  obtain rfl : place = place' := Option.some.inj (hget.symm.trans hget')
  obtain rfl : span = span' := Except.ok.inj (hspan.symm.trans hspan')
  obtain ⟨fixed, hsplice, hkept⟩ := honly.kept "return c ? a : b;".toList
  have hslice := hkept x (List.mem_of_getElem? hx) hnode
    (fun hmem => haround (List.mem_map_of_mem hmem))
    (fun d hd hmem => hremoved d hd (List.mem_map_of_mem hmem))
  rw [htext] at hslice
  exact ⟨tree, r, place, span, x, fixed, hw, htree, heval, hget, hspan, honly, hids, hstart, hstop,
    hx, hsplice, Except.ok.inj (hsplice.symm.trans hfixed), hslice⟩

end Branch

end IfCollapse
