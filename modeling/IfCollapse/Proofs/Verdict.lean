import IfCollapse.Branch.Verdict
import IfCollapse.Proofs.Sites

/-! What stands behind a replacement: the statements of the two branches, and for each pair of them
the sites that became its substitutions. -/

namespace IfCollapse.Branch

open Java

def thenBranch (ifStatement : Place) : List Place :=
  match ifStatement.childByField? "consequence" with
  | some consequence => branchStatements consequence
  | none => []

/-- The statements of the alternative or, if there is none, as many of the following statements as
the then-branch has. -/
def elseBranch (ifStatement : Place) : List Place :=
  match ifStatement.childByField? "alternative" with
  | some alternative => branchStatements alternative
  | none => ifStatement.followingSiblings.take (thenBranch ifStatement).length

def innerCondition (condition : Place) : Place :=
  condition.childNodes.head?.getD condition

structure Borrows (ifStatement : Place) (thens borrowed : List Place) : Prop where
  noElse : ifStatement.childByField? "alternative" = none
  inSequence : ∃ parent, ifStatement.parent? = some parent ∧ parent.kind.isSequence = true
  jumps : ∃ last, thens.getLast? = some last ∧ last.kind.isJump = true
  taken : borrowed = ifStatement.followingSiblings.take thens.length
  sameCount : borrowed.length = thens.length

theorem borrows_of_borrowElse {ifStatement : Place} {thens borrowed : List Place}
    (h : borrowElse ifStatement thens = .ok borrowed) : Borrows ifStatement thens borrowed := by
  unfold borrowElse at h
  split at h
  · simp at h
  · rename_i hnone
    split at h
    · simp at h
    · rename_i hsequence
      split at h
      · simp at h
      · rename_i last hlast
        split at h
        · simp at h
        · rename_i hjump
          simp only at h
          split at h
          · simp at h
          · rename_i hcount
            have htaken := Except.ok.inj h
            refine ⟨by simpa using hnone, ?_, ⟨last, hlast, by simpa using hjump⟩, htaken.symm, ?_⟩
            · simpa [Option.any_eq_true] using hsequence
            · rw [htaken, Nat.not_lt] at hcount
              have hle := List.length_take_le thens.length ifStatement.followingSiblings
              rw [htaken] at hle
              exact Nat.le_antisymm hle hcount

theorem elseStatements_cases {ifStatement : Place} {thens elses borrowed : List Place}
    (h : elseStatements ifStatement thens = .ok (elses, borrowed)) :
    (∃ alternative, ifStatement.childByField? "alternative" = some alternative ∧
        elses = branchStatements alternative ∧ borrowed = []) ∨
      Borrows ifStatement thens borrowed ∧ elses = borrowed := by
  cases ha : ifStatement.childByField? "alternative" with
  | some alternative =>
    simp only [elseStatements, ha, Except.ok.injEq, Prod.mk.injEq] at h
    exact Or.inl ⟨alternative, rfl, h.1.symm, h.2.symm⟩
  | none =>
    simp only [elseStatements, ha] at h
    obtain ⟨statements, hb, heq⟩ := bind_eq_ok.1 h
    have hpair : (statements, statements) = (elses, borrowed) := Except.ok.inj heq
    rw [Prod.mk.injEq] at hpair
    obtain ⟨rfl, rfl⟩ := hpair
    exact Or.inr ⟨borrows_of_borrowElse hb, rfl⟩

theorem elses_eq_of_elseStatements {ifStatement : Place} {elses borrowed : List Place}
    (h : elseStatements ifStatement (thenBranch ifStatement) = .ok (elses, borrowed)) :
    elses = elseBranch ifStatement := by
  cases elseStatements_cases h with
  | inl halternative =>
    obtain ⟨alternative, ha, helses, _⟩ := halternative
    rw [helses, elseBranch, ha]
  | inr hborrowed =>
    obtain ⟨hb, rfl⟩ := hborrowed
    rw [elseBranch, hb.noElse]
    exact hb.taken

theorem borrowed_subset_of_elseStatements {ifStatement : Place} {thens elses borrowed : List Place}
    (h : elseStatements ifStatement thens = .ok (elses, borrowed)) : borrowed ⊆ elses := by
  cases elseStatements_cases h with
  | inl halternative =>
    obtain ⟨_, _, _, rfl⟩ := halternative
    exact List.nil_subset elses
  | inr hborrowed => exact hborrowed.2 ▸ List.Subset.refl borrowed

/-- Everything that a verdict to replace rests on. -/
structure Replaced (tree : Tree) (id : Nat) (r : Replacement) (place condition : Place)
    (sites : List Site) (borrowed : List Place) : Prop where
  get : tree.get? id = some place
  isIf : place.kind = .ifStatement
  hasCondition : place.childByField? "condition" = some condition
  elses : elseStatements place (thenBranch place) = .ok (elseBranch place, borrowed)
  sameCount : (thenBranch place).length = (elseBranch place).length
  sited : sitesOf (thenBranch place) (elseBranch place) = .ok sites
  nonempty : sites ≠ []
  fitting : fits place (thenBranch place) = true
  built : r = build place condition sites (thenBranch place) borrowed

theorem replaced_of_evaluate {tree : Tree} {id : Nat} {r : Replacement}
    (h : evaluate tree id = .ok (.replace r)) :
    ∃ place condition sites borrowed, Replaced tree id r place condition sites borrowed := by
  unfold evaluate at h
  split at h
  · simp at h
  · rename_i place hget
    split at h
    · simp at h
    · rename_i hkind
      split at h
      · simp at h
      · simp at h
      · rename_i condition consequence hcond hcons
        have hthen : thenBranch place = branchStatements consequence := by
          rw [thenBranch, hcons]
        simp only [Except.ok.injEq] at h
        unfold judge at h
        rw [← hthen] at h
        simp only at h
        split at h
        · simp at h
        · rename_i elses borrowed helse
          have helses := elses_eq_of_elseStatements helse
          split at h
          · simp at h
          · rename_i hlen
            split at h
            · simp at h
            · simp at h
            · rename_i sites hne hsites
              split at h
              · rename_i hfits
                simp only [Verdict.replace.injEq] at h
                rw [helses] at helse
                refine ⟨place, condition, sites, borrowed, hget, by simpa using hkind, hcond, helse,
                  ?_, ?_, hne, hfits, h.symm⟩
                · rw [← helses]
                  simpa using hlen
                · rw [← helses]
                  exact hsites
              · simp at h

theorem classify_of_sitesOf {befores afters : List Place} {sites : List Site}
    (h : sitesOf befores afters = .ok sites) :
    ∃ parts : List (List Site), sites = parts.flatten ∧
      (∀ (i : Nat) (p q : Place), befores[i]? = some p → afters[i]? = some q →
        ∃ part, parts[i]? = some part ∧ classify (differences p q) p.id q.id = .ok part) ∧
      ∀ (i : Nat) (part : List Site), parts[i]? = some part → ∃ p q, befores[i]? = some p ∧
        afters[i]? = some q ∧ classify (differences p q) p.id q.id = .ok part := by
  induction befores generalizing afters sites with
  | nil =>
    rw [sitesOf.eq_def] at h
    simp only [Except.ok.injEq] at h
    exact ⟨[], by simp [← h]⟩
  | cons before befores ih =>
    cases afters with
    | nil =>
      rw [sitesOf.eq_def] at h
      simp only [Except.ok.injEq] at h
      exact ⟨[], by simp [← h]⟩
    | cons after afters =>
      rw [sitesOf] at h
      cases hc : classify (differences before after) before.id after.id with
      | error why => simp [hc, bind, Except.bind] at h
      | ok part =>
        simp only [hc, bind, Except.bind, pure, Except.pure] at h
        cases hr : sitesOf befores afters with
        | error why => simp [hr] at h
        | ok rest =>
          simp only [hr, Except.ok.injEq] at h
          subst h
          obtain ⟨parts, rfl, hall, hback⟩ := ih hr
          refine ⟨part :: parts, rfl, ?_, ?_⟩
          · intro i p q hp hq
            cases i with
            | zero =>
              simp only [List.getElem?_cons_zero, Option.some.injEq] at hp hq
              subst hp hq
              exact ⟨part, rfl, hc⟩
            | succ i => exact hall i p q hp hq
          · intro i part' hpart
            cases i with
            | zero =>
              simp only [List.getElem?_cons_zero, Option.some.injEq] at hpart
              subst hpart
              exact ⟨before, after, rfl, rfl, hc⟩
            | succ i => exact hback i part' hpart

theorem filter_flatten_eq {α : Type} {parts : List (List α)} {part : List α} {i : Nat}
    {test : α → Bool} (hi : parts[i]? = some part)
    (hout : ∀ (j : Nat) (other : List α), j ≠ i → parts[j]? = some other →
      ∀ a ∈ other, test a = false) : parts.flatten.filter test = part.filter test := by
  induction parts generalizing i with
  | nil => simp at hi
  | cons first parts ih =>
    rw [List.flatten_cons, List.filter_append]
    cases i with
    | zero =>
      simp only [List.getElem?_cons_zero, Option.some.injEq] at hi
      subst hi
      have hrest : parts.flatten.filter test = [] := by
        rw [List.filter_eq_nil_iff]
        intro a ha
        obtain ⟨other, ho, hao⟩ := List.mem_flatten.1 ha
        obtain ⟨j, hj⟩ := List.getElem?_of_mem ho
        simp [hout (j + 1) other (by omega) hj a hao]
      rw [hrest, List.append_nil]
    | succ i =>
      have hfirst : first.filter test = [] := by
        rw [List.filter_eq_nil_iff]
        intro a ha
        simp [hout 0 first (by omega) rfl a ha]
      rw [hfirst, List.nil_append]
      apply ih hi
      intro j other hj hother
      exact hout (j + 1) other (by omega) hother

theorem mem_children_of_childByField {p c : Place} {field : String}
    (h : p.childByField? field = some c) : c ∈ p.children :=
  List.mem_of_find?_eq_some h

theorem mem_below_of_branchStatements {branch s : Place} (h : s ∈ branchStatements branch) :
    s ∈ branch.below := by
  unfold branchStatements at h
  split at h
  · exact Place.child_mem_below (List.mem_filter.1 h).1
  · simp only [List.mem_singleton] at h
    rw [h]
    exact branch.mem_below_self

theorem unrelated_branchStatements {branch : Place} (h : branch.Distinct) :
    Place.Unrelated (branchStatements branch) := by
  unfold branchStatements
  split
  · exact h.unrelated.sublist List.filter_sublist
  · exact List.pairwise_singleton _ _

theorem mem_below_of_thenBranch {place s : Place} (h : s ∈ thenBranch place) :
    s ∈ place.below := by
  unfold thenBranch at h
  split at h
  · rename_i consequence hc
    exact Place.below_trans (Place.child_mem_below (mem_children_of_childByField hc))
      (mem_below_of_branchStatements h)
  · simp at h

theorem unrelated_thenBranch {place : Place} (h : place.Distinct) :
    Place.Unrelated (thenBranch place) := by
  unfold thenBranch
  split
  · rename_i consequence hc
    exact unrelated_branchStatements (h.child (mem_children_of_childByField hc))
  · exact List.Pairwise.nil

theorem mem_below_of_elseBranch {root place s : Place} (htop : root.above = [])
    (hp : place ∈ root.below) (h : s ∈ elseBranch place) : s ∈ root.below := by
  unfold elseBranch at h
  split at h
  · rename_i alternative ha
    exact Place.below_trans (Place.below_trans hp
      (Place.child_mem_below (mem_children_of_childByField ha))) (mem_below_of_branchStatements h)
  · have hs := List.mem_of_mem_take h
    unfold Place.followingSiblings at hs
    split at hs
    · simp at hs
    · rename_i parent hparent
      have hchild : s ∈ parent.children :=
        (List.dropWhile_sublist _).subset (List.mem_of_mem_drop (List.mem_filter.1 hs).1)
      exact Place.below_trans (Place.ancestor_mem_below htop hp
        (Place.line_suffix_of_parent hparent)).1 (Place.child_mem_below hchild)

def Site.toConditional (condition : Place) (site : Site) : Conditional :=
  ⟨site.before, condition, site.before, site.after, site.position⟩

theorem target_eq_of_build {ifStatement condition : Place} {sites : List Site}
    {thens borrowed : List Place} {s : Statement} {c : Conditional}
    (hs : s ∈ (build ifStatement condition sites thens borrowed).statements)
    (hc : c ∈ s.substitutions) : c.target = c.whenTrue := by
  obtain ⟨t, _, rfl⟩ := List.mem_map.1 hs
  obtain ⟨site, _, rfl⟩ := List.mem_map.1 hc
  rfl

def Statement.targets (s : Statement) : List Nat :=
  s.substitutions.map (·.target.id)

section Statements

variable {source : Source} {cst : Cst} {tree : Tree} {root place condition : Place} {id : Nat}
  {r : Replacement} {sites : List Site} {borrowed : List Place}

theorem Replaced.then_mem (hl : Lowered source cst tree root)
    (h : Replaced tree id r place condition sites borrowed) {t : Place}
    (ht : t ∈ thenBranch place) : t ∈ root.below :=
  Place.below_trans (hl.mem_below h.get) (mem_below_of_thenBranch ht)

theorem Replaced.else_mem (hl : Lowered source cst tree root)
    (h : Replaced tree id r place condition sites borrowed) {e : Place}
    (he : e ∈ elseBranch place) : e ∈ root.below :=
  mem_below_of_elseBranch hl.top (hl.mem_below h.get) he

theorem Replaced.borrowed_mem (hl : Lowered source cst tree root)
    (h : Replaced tree id r place condition sites borrowed) {p : Place} (hp : p ∈ r.borrowed) :
    p ∈ root.below := by
  rw [h.built] at hp
  exact h.else_mem hl (borrowed_subset_of_elseStatements h.elses hp)

theorem Replaced.statements (h : Replaced tree id r place condition sites borrowed) :
    r.statements = (thenBranch place).map fun t =>
      ⟨t, substitutionsIn (innerCondition condition) sites t⟩ := by
  rw [h.built]
  rfl

theorem Replaced.target_eq (h : Replaced tree id r place condition sites borrowed) {s : Statement}
    {c : Conditional} (hs : s ∈ r.statements) (hc : c ∈ s.substitutions) :
    c.target = c.whenTrue := by
  rw [h.built] at hs
  exact target_eq_of_build hs hc

/-- The sites of every pair of statements lie in the first of them or in no statement at all. -/
def OwnOrOutside (befores afters : List Place) : Prop :=
  ∀ (i : Nat) (t e : Place) (part : List Site), befores[i]? = some t → afters[i]? = some e →
    classify (differences t e) t.id e.id = .ok part →
      ∀ s ∈ part, s.before ∈ t.below ∨ ∀ u ∈ befores, s.before ∉ u.below

theorem Replaced.substitutions_eq_filter (hl : Lowered source cst tree root)
    (h : Replaced tree id r place condition sites borrowed)
    (hown : OwnOrOutside (thenBranch place) (elseBranch place)) {i : Nat} {t e : Place}
    (ht : (thenBranch place)[i]? = some t) (he : (elseBranch place)[i]? = some e) :
    ∃ part, classify (differences t e) t.id e.id = .ok part ∧
      substitutionsIn (innerCondition condition) sites t =
        (part.filter fun site => site.before.isWithin t.id).map
          (Site.toConditional (innerCondition condition)) := by
  have hdist := hl.distinct
  obtain ⟨parts, rfl, hall, hback⟩ := classify_of_sitesOf h.sited
  obtain ⟨part, hpart, hclass⟩ := hall i t e ht he
  refine ⟨part, hclass, ?_⟩
  have htroot := h.then_mem hl (List.mem_of_getElem? ht)
  have hfilter : parts.flatten.filter (fun site => site.before.isWithin t.id) =
      part.filter fun site => site.before.isWithin t.id := by
    apply filter_flatten_eq hpart
    intro j other hj hother s hs
    obtain ⟨u, v, hu, hv, huv⟩ := hback j other hother
    by_contra hin
    rw [Bool.not_eq_false] at hin
    have hsroot := (mem_below_of_classify hl.top (h.then_mem hl (List.mem_of_getElem? hu))
      (h.else_mem hl (List.mem_of_getElem? hv)) huv s hs).1
    have hst := (hdist.isWithin_iff_mem_below hl.top hsroot htroot).1 hin
    cases hown j u v other hu hv huv s hs with
    | inl hsu =>
      have hplace := hdist.of_mem_below (hl.mem_below h.get)
      exact hj ((unrelated_thenBranch hplace).index_eq hu ht hsu hst)
    | inr hout => exact hout t (List.mem_of_getElem? ht) hst
  rw [substitutionsIn, hfilter]
  rfl

theorem Replaced.substitutions (hl : Lowered source cst tree root)
    (h : Replaced tree id r place condition sites borrowed)
    (hnodes : ∀ s ∈ thenBranch place ++ elseBranch place, s.isToken = false) {i : Nat}
    {t e : Place} (ht : (thenBranch place)[i]? = some t) (he : (elseBranch place)[i]? = some e) :
    ∃ part, classify (differences t e) t.id e.id = .ok part ∧
      substitutionsIn (innerCondition condition) sites t =
        part.map (Site.toConditional (innerCondition condition)) := by
  have hbelow : ∀ (j : Nat) (u v : Place) (other : List Site), (thenBranch place)[j]? = some u →
      (elseBranch place)[j]? = some v → classify (differences u v) u.id v.id = .ok other →
      ∀ s ∈ other, s.before ∈ u.below := by
    intro j u v other hu hv huv s hs
    have hut := List.mem_of_getElem? hu
    have hun := hnodes u (List.mem_append_left _ hut)
    have hvn := hnodes v (List.mem_append_right _ (List.mem_of_getElem? hv))
    obtain ⟨ds, hacc⟩ := accepted_of_classify hl.distinct hl.top (h.then_mem hl hut) hun hvn huv
    obtain ⟨path, _, hb, _⟩ := hacc.aligned s hs
    exact Place.mem_below_of_descend hb
  have hown : OwnOrOutside (thenBranch place) (elseBranch place) :=
    fun j u v other hu hv huv s hs => Or.inl (hbelow j u v other hu hv huv s hs)
  obtain ⟨part, hclass, hsubs⟩ := h.substitutions_eq_filter hl hown ht he
  refine ⟨part, hclass, ?_⟩
  rw [hsubs, List.filter_eq_self.2]
  intro s hs
  exact Place.isWithin_of_mem_below (hbelow i t e part ht he hclass s hs)

theorem Replaced.mem_below (hl : Lowered source cst tree root)
    (h : Replaced tree id r place condition sites borrowed) {s : Statement}
    (hs : s ∈ r.statements) :
    s.template ∈ root.below ∧ ∀ c ∈ s.substitutions, c.condition = innerCondition condition ∧
      c.target ∈ s.template.below ∧ c.whenFalse ∈ root.below := by
  rw [h.statements] at hs
  obtain ⟨t, ht, rfl⟩ := List.mem_map.1 hs
  have htroot := h.then_mem hl ht
  refine ⟨htroot, ?_⟩
  intro c hc
  obtain ⟨site, hsite, rfl⟩ := List.mem_map.1 hc
  obtain ⟨hin, hwithin⟩ := List.mem_filter.1 hsite
  obtain ⟨parts, rfl, _, hback⟩ := classify_of_sitesOf h.sited
  obtain ⟨part, hpart, hsp⟩ := List.mem_flatten.1 hin
  obtain ⟨i, hi⟩ := List.mem_iff_getElem?.1 hpart
  obtain ⟨u, v, hu, hv, hclass⟩ := hback i part hi
  have huroot := h.then_mem hl (List.mem_of_getElem? hu)
  have hvroot := h.else_mem hl (List.mem_of_getElem? hv)
  obtain ⟨hbefore, hafter⟩ := mem_below_of_classify hl.top huroot hvroot hclass site hsp
  exact ⟨rfl, (hl.distinct.isWithin_iff_mem_below hl.top hbefore htroot).1 hwithin, hafter⟩

theorem Replaced.innerCondition_mem (hl : Lowered source cst tree root)
    (h : Replaced tree id r place condition sites borrowed) :
    innerCondition condition ∈ root.below := by
  have hcond := Place.below_trans (hl.mem_below h.get)
    (Place.child_mem_below (mem_children_of_childByField h.hasCondition))
  unfold innerCondition
  cases hinner : condition.childNodes.head? with
  | none => exact hcond
  | some inner =>
    have hchild := (List.mem_filter.1 (List.mem_of_mem_head? hinner)).1
    exact Place.below_trans hcond (Place.child_mem_below hchild)

end Statements

def replacementAt? (source : Source) (cst : Cst) (id : Nat) : Option (Tree × Replacement) :=
  match Tree.ofCst source cst with
  | .error _ => none
  | .ok tree =>
    match evaluate tree id with
    | .ok (.replace r) => some (tree, r)
    | _ => none

theorem exists_of_replacementAt? {source : Source} {cst : Cst} {id : Nat}
    {check : Tree × Replacement → Bool} (h : (replacementAt? source cst id).any check = true) :
    ∃ tree r, Tree.ofCst source cst = .ok tree ∧ evaluate tree id = .ok (.replace r) ∧
      check (tree, r) = true := by
  unfold replacementAt? at h
  split at h
  · simp at h
  · rename_i tree htree
    split at h
    · rename_i r hr
      exact ⟨tree, r, htree, hr, h⟩
    · simp at h

end IfCollapse.Branch
