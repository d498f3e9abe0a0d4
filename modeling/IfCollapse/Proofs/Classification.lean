import IfCollapse.Proofs.Differences
import IfCollapse.Proofs.Projection
import Mathlib.Data.Nat.Find

/-! The rule for sites. A difference has one unless it lies in the target of an assignment, no
position is met on its way up, the two sides disagree before the first one, or that one is in an
inner scope; and what is returned are the outermost of the first positions. -/

namespace IfCollapse.Java.Place

variable {top x m : Place}

def OnWay (top x m : Place) : Prop :=
  m ∈ top.below ∧ m ≠ top ∧ x ∈ m.below

def LevelsUp (k : Nat) (x m : Place) : Prop :=
  m.line = x.line.drop k

theorem LevelsUp.suffix {k : Nat} (h : LevelsUp k x m) : m.line <:+ x.line :=
  h ▸ List.drop_suffix k x.line

theorem LevelsUp.length {k : Nat} (h : LevelsUp k x m) : m.line.length + k = x.line.length := by
  have hlength := congrArg List.length h
  rw [List.length_drop, line, List.length_cons] at hlength
  rw [line, List.length_cons]
  omega

theorem exists_levelsUp {k : Nat} (h : k < x.line.length) : ∃ m, LevelsUp k x m := by
  cases hdrop : x.line.drop k with
  | nil =>
    have hlength := congrArg List.length hdrop
    rw [List.length_drop, List.length_nil] at hlength
    omega
  | cons s above => exact ⟨⟨s, above⟩, hdrop.symm⟩

theorem levelsUp_of_suffix (h : m.line <:+ x.line) :
    LevelsUp (x.line.length - m.line.length) x m :=
  List.suffix_iff_eq_drop.1 h

theorem onWay_iff_suffix (hx : x ∈ top.below) :
    OnWay top x m ↔ m.line <:+ x.line ∧ top.line.length < m.line.length := by
  constructor
  · intro h
    obtain ⟨hm, hne, hxm⟩ := h
    exact ⟨line_suffix_of_mem_below hxm, length_lt_of_mem_below hm hne⟩
  · intro h
    obtain ⟨hm, hxm⟩ := between_of_suffix hx h.1 (Nat.le_of_lt h.2)
    refine ⟨hm, ?_, hxm⟩
    intro heq
    rw [heq] at h
    omega

theorem onWay_iff_id (hdist : top.Distinct) (hx : x ∈ top.below) (hm : m.line <:+ x.line) :
    OnWay top x m ↔ ∀ n : Place, n.line <:+ x.line → m.line <:+ n.line → n.id ≠ top.id := by
  rw [onWay_iff_suffix hx]
  constructor
  · intro h n hn hmn hid
    have hlonger := hmn.length_le
    obtain ⟨hin, hne, _⟩ : OnWay top x n := (onWay_iff_suffix hx).2 ⟨hn, by omega⟩
    exact hne (hdist.eq hin top.mem_below_self hid)
  · intro h
    refine ⟨hm, ?_⟩
    by_contra hle
    have htop := line_suffix_of_mem_below hx
    exact h top htop (List.suffix_of_suffix_length_le hm htop (by omega)) rfl

theorem mem_takeWhile_chain {shapes : List Shape} {f : Place → Bool} :
    m ∈ (chain shapes).takeWhile f ↔ m.line <:+ shapes ∧
      ∀ n : Place, n.line <:+ shapes → m.line <:+ n.line → f n = true := by
  induction shapes with
  | nil => simp [chain, line]
  | cons s above ih =>
    have hself : (⟨s, above⟩ : Place).line <:+ s :: above := List.suffix_rfl
    rw [chain, List.takeWhile_cons]
    split
    · rename_i hf
      rw [List.mem_cons, ih]
      constructor
      · intro h
        cases h with
        | inl heq =>
          subst heq
          refine ⟨hself, ?_⟩
          intro n hn hn'
          rw [eq_of_suffixes hn hn']
          exact hf
        | inr hrest =>
          refine ⟨hrest.1.trans (List.suffix_cons s above), ?_⟩
          intro n hn hmn
          cases List.suffix_cons_iff.1 hn with
          | inl heq =>
            have hns : n = ⟨s, above⟩ := line_injective heq
            rw [hns]
            exact hf
          | inr hsuffix => exact hrest.2 n hsuffix hmn
      · intro h
        cases List.suffix_cons_iff.1 h.1 with
        | inl heq => exact Or.inl (line_injective heq)
        | inr hsuffix =>
          refine Or.inr ⟨hsuffix, ?_⟩
          intro n hn hmn
          exact h.2 n (hn.trans (List.suffix_cons s above)) hmn
    · rename_i hf
      constructor
      · intro h
        simp at h
      · intro h
        exact absurd (h.2 ⟨s, above⟩ hself h.1) hf

theorem mem_takeWhile_lineage (hdist : top.Distinct) (hx : x ∈ top.below) :
    m ∈ x.lineage.takeWhile (·.id != top.id) ↔ OnWay top x m := by
  rw [lineage_eq, mem_takeWhile_chain]
  simp only [bne_iff_ne]
  constructor
  · intro h
    exact (onWay_iff_id hdist hx h.1).2 h.2
  · intro h
    have hm := line_suffix_of_mem_below h.2.2
    exact ⟨hm, (onWay_iff_id hdist hx hm).1 h⟩

theorem mem_takeWhile_ancestors (hdist : top.Distinct) (hx : x ∈ top.below) (hne : x ≠ top) :
    m ∈ x.ancestors.takeWhile (·.id != top.id) ↔ OnWay top x m ∧ m ≠ x := by
  have hid : x.id ≠ top.id := fun he => hne (hdist.eq hx top.mem_below_self he)
  rw [← mem_takeWhile_lineage hdist hx, lineage, List.takeWhile_cons_of_pos (by simpa using hid),
    List.mem_cons]
  constructor
  · intro h
    refine ⟨Or.inr h, ?_⟩
    intro heq
    have hlength := (mem_chain_iff.1 ((List.takeWhile_sublist _).mem h)).length_le
    rw [heq, line, List.length_cons] at hlength
    omega
  · intro h
    exact h.1.resolve_left h.2

end IfCollapse.Java.Place

namespace IfCollapse.Branch

open Java

def HeldAsTarget (m : Place) : Prop :=
  m.field = some "left" ∧ ∃ e, m.parent? = some e ∧ e.kind = .assignmentExpression

def InScopeOf (top m : Place) : Prop :=
  ∀ n, top.OnWay m n → n ≠ m → n.kind ≠ .lambdaExpression ∧ n.kind ≠ .other "class_body"

structure FirstPosition (top x : Place) (k : Nat) (m : Place) : Prop where
  way : top.OnWay x m
  up : Place.LevelsUp k x m
  position : position? m ≠ none
  first : ∀ n ∈ m.below, x ∈ n.below → n ≠ m → position? n = none

inductive Obstructed (p q : Place) (d : Difference) : Prop
  /-- One side lies in the target of an assignment. -/
  | target (m : Place) (way : p.OnWay d.before m ∨ q.OnWay d.after m) (held : HeldAsTarget m)
  | unplaced (unmet : ∀ m, p.OnWay d.before m → position? m = none)
  /-- The roles differ on some level up to the first position. -/
  | role (k : Nat) (m : Place) (at_m : FirstPosition p d.before k m) (j : Nat) (x y : Place)
      (le : j ≤ k) (up : Place.LevelsUp j d.before x) (up_after : Place.LevelsUp j d.after y)
      (differ : x.field ≠ y.field)
  | position (k : Nat) (m n : Place) (at_m : FirstPosition p d.before k m)
      (up_after : Place.LevelsUp k d.after n) (differ : position? m ≠ position? n)
  /-- The second side comes to its end before. -/
  | limit (k : Nat) (m : Place) (at_m : FirstPosition p d.before k m) (j : Nat) (le : j ≤ k)
      (up_after : Place.LevelsUp j d.after q)
  | scope (k : Nat) (m : Place) (at_m : FirstPosition p d.before k m) (inner : ¬InScopeOf p m)

section Climbs

variable {p q x m : Place} {d : Difference} {s : Site} {path : List Nat}

theorem isAssignmentTarget_iff : isAssignmentTarget m = true ↔ HeldAsTarget m := by
  simp only [isAssignmentTarget, HeldAsTarget, Bool.and_eq_true, beq_iff_eq, Option.any_eq_true]

theorem inAssignmentTarget_iff (hdist : p.Distinct) (hx : x ∈ p.below) :
    inAssignmentTarget x p.id = true ↔ ∃ m, p.OnWay x m ∧ HeldAsTarget m := by
  rw [inAssignmentTarget, List.any_eq_true]
  simp only [Place.mem_takeWhile_lineage hdist hx, isAssignmentTarget_iff]

theorem inInnerScope_iff (hdist : p.Distinct) (hx : x ∈ p.below) (hne : x ≠ p) :
    inInnerScope x p.id = false ↔ InScopeOf p x := by
  rw [inInnerScope, List.any_eq_false]
  simp only [Place.mem_takeWhile_ancestors hdist hx hne, opensScope, Bool.or_eq_true, beq_iff_eq,
    not_or, and_imp, InScopeOf, ne_eq]

theorem exists_firstPosition (hx : x ∈ p.below) (hm : p.OnWay x m) (hpos : position? m ≠ none) :
    ∃ k n, FirstPosition p x k n := by
  classical
  have hex : ∃ k n, Place.LevelsUp k x n ∧ p.OnWay x n ∧ position? n ≠ none :=
    ⟨_, m, Place.levelsUp_of_suffix (Place.line_suffix_of_mem_below hm.2.2), hm, hpos⟩
  obtain ⟨n, hup, hway, hn⟩ := Nat.find_spec hex
  refine ⟨Nat.find hex, n, hway, hup, hn, ?_⟩
  intro r hr hxr hne
  by_contra hsome
  have hrup := Place.levelsUp_of_suffix (Place.line_suffix_of_mem_below hxr)
  -- a position below the chosen one would have been met on an earlier level
  have hlonger := Place.length_lt_of_mem_below hr hne
  have hlevels := hup.length
  have hlevels' := hrup.length
  have hrway : p.OnWay x r := by
    rw [Place.onWay_iff_suffix hx] at hway ⊢
    exact ⟨hrup.suffix, by omega⟩
  exact Nat.find_min hex (by omega) ⟨r, hrup, hrway, hsome⟩

theorem FirstPosition.unique {k j : Nat} {n : Place} (h : FirstPosition p x k m)
    (h' : FirstPosition p x j n) : k = j ∧ m = n := by
  have hmn : m = n := by
    have hm := Place.line_suffix_of_mem_below h.way.2.2
    have hn := Place.line_suffix_of_mem_below h'.way.2.2
    by_contra hne
    cases Nat.le_total m.line.length n.line.length with
    | inl hle =>
      obtain ⟨hin, hxn⟩ := Place.between_of_suffix h.way.2.2 hn hle
      exact h'.position (h.first n hin hxn (Ne.symm hne))
    | inr hle =>
      obtain ⟨hin, hxm⟩ := Place.between_of_suffix h'.way.2.2 hm hle
      exact h.position (h'.first m hin hxm hne)
  subst hmn
  have hk := h.up.length
  have hj := h'.up.length
  exact ⟨by omega, rfl⟩

theorem Ascent.firstPosition {limitAfter levels : Nat} {y : Place} (hdist : p.Distinct)
    (hx : x ∈ p.below) (h : Ascent p.id limitAfter x y s levels) :
    FirstPosition p x levels s.before := by
  have hup : Place.LevelsUp levels x s.before := h.before
  refine ⟨(Place.onWay_iff_id hdist hx hup.suffix).2 h.limited, hup, ?_, ?_⟩
  · rw [h.position_before]
    simp
  · intro n hn hxn hne
    exact h.passed n (Place.line_suffix_of_mem_below hxn) (Place.line_suffix_of_mem_below hn) hne

theorem climb_eq_ok_iff (hp : p.Distinct) (hq : q.Distinct) (hb : d.before ∈ p.below)
    (ha : d.after ∈ q.below) : climb p.id q.id d = .ok s ↔
      (¬∃ m, (p.OnWay d.before m ∨ q.OnWay d.after m) ∧ HeldAsTarget m) ∧
        ∃ levels, Ascent p.id q.id d.before d.after s levels := by
  have htarget : (inAssignmentTarget d.before p.id || inAssignmentTarget d.after q.id) = true ↔
      ∃ m, (p.OnWay d.before m ∨ q.OnWay d.after m) ∧ HeldAsTarget m := by
    rw [Bool.or_eq_true, inAssignmentTarget_iff hp hb, inAssignmentTarget_iff hq ha, ← exists_or]
    simp only [or_and_right]
  rw [← htarget, climb]
  split
  · rename_i hin
    simp [hin]
  · rename_i hout
    simp only [hout, Bool.false_eq_true, not_false_eq_true, true_and]
    constructor
    · intro h
      exact ascent_of_nearest h
    · intro h
      obtain ⟨levels, hascent⟩ := h
      exact nearest_of_ascent hascent

theorem FirstPosition.counterpart {k : Nat} (h : FirstPosition p d.before k m)
    (hb : p.descend path = some d.before) (ha : q.descend path = some d.after) :
    ∃ n, Place.LevelsUp k d.after n ∧ q.OnWay d.after n := by
  have hin := Place.mem_below_of_descend hb
  have hbelow := ((Place.onWay_iff_suffix hin).1 h.way).2
  have hlevels := h.up.length
  have hlength := Place.length_line_of_descend hb
  have hlength' := Place.length_line_of_descend ha
  obtain ⟨n, hn⟩ := Place.exists_levelsUp (k := k) (x := d.after) (by omega)
  have hlevels' := hn.length
  refine ⟨n, hn, (Place.onWay_iff_suffix (Place.mem_below_of_descend ha)).2 ⟨hn.suffix, ?_⟩⟩
  omega

theorem not_obstructed_of_climb (hp : p.Distinct) (hq : q.Distinct) (hb : d.before ∈ p.below)
    (ha : d.after ∈ q.below) (h : climb p.id q.id d = .ok s) : ¬Obstructed p q d := by
  obtain ⟨htarget, levels, hs⟩ := (climb_eq_ok_iff hp hq hb ha).1 h
  have hfirst := hs.firstPosition hp hb
  intro hob
  cases hob with
  | target m way held => exact htarget ⟨m, way, held⟩
  | unplaced unmet => exact hfirst.position (unmet s.before hfirst.way)
  | role k m at_m j x y le up up_after differ =>
    obtain ⟨rfl, rfl⟩ := at_m.unique hfirst
    exact differ (hs.roles j x y le up up_after)
  | position k m n at_m up_after differ =>
    obtain ⟨rfl, rfl⟩ := at_m.unique hfirst
    have hn : n = s.after := Place.line_injective (up_after.trans hs.after.symm)
    rw [hn, hs.position_before, hs.position_after] at differ
    exact differ rfl
  | limit k m at_m j le up_after =>
    obtain ⟨rfl, rfl⟩ := at_m.unique hfirst
    refine hs.limited_after q up_after.suffix ?_ rfl
    rw [hs.after, up_after]
    exact List.drop_suffix_drop_left _ le
  | scope k m at_m inner =>
    obtain ⟨rfl, rfl⟩ := at_m.unique hfirst
    exact inner ((inInnerScope_iff hp hfirst.way.1 hfirst.way.2.1).1 hs.scope)

theorem exists_site (hp : p.Distinct) (hq : q.Distinct) (hb : p.descend path = some d.before)
    (ha : q.descend path = some d.after) (h : ¬Obstructed p q d) :
    ∃ s, climb p.id q.id d = .ok s := by
  have hbin := Place.mem_below_of_descend hb
  have hain := Place.mem_below_of_descend ha
  have hplaced : ∃ m, p.OnWay d.before m ∧ position? m ≠ none := by
    by_contra hnone
    refine h (.unplaced fun m hm => ?_)
    by_contra hsome
    exact hnone ⟨m, hm, hsome⟩
  obtain ⟨m, hm, hpos⟩ := hplaced
  obtain ⟨k, m, hfirst⟩ := exists_firstPosition hbin hm hpos
  obtain ⟨n, hn, hway⟩ := hfirst.counterpart hb ha
  obtain ⟨position, hposition⟩ := Option.ne_none_iff_exists'.1 hfirst.position
  refine ⟨⟨m, n, position⟩, (climb_eq_ok_iff hp hq hbin hain).2 ⟨?_, k, ?_⟩⟩
  · intro htarget
    obtain ⟨t, ht, hheld⟩ := htarget
    exact h (.target t ht hheld)
  · refine ⟨⟨hfirst.up, hn, hposition, ?_, ?_, ?_, ?_⟩, ?_, ?_⟩
    · by_contra hne
      exact h (.position k m n hfirst hn fun he => hne (he ▸ hposition))
    · rw [inInnerScope_iff hp hfirst.way.1 hfirst.way.2.1]
      by_contra hinner
      exact h (.scope k m hfirst hinner)
    · exact (Place.onWay_iff_id hp hbin hfirst.up.suffix).1 hfirst.way
    · intro r hr hmr hne
      obtain ⟨hin, hxr⟩ := Place.between_of_suffix hfirst.way.2.2 hr hmr.length_le
      exact hfirst.first r hin hxr hne
    · exact (Place.onWay_iff_id hq hain hn.suffix).1 hway
    · intro j x y hj hx hy
      by_contra hne
      exact h (.role k m hfirst j x y hj hx hy hne)

theorem exists_site_iff (hp : p.Distinct) (hq : q.Distinct)
    (hb : p.descend path = some d.before) (ha : q.descend path = some d.after) :
    (∃ s, climb p.id q.id d = .ok s) ↔ ¬Obstructed p q d := by
  refine ⟨?_, exists_site hp hq hb ha⟩
  rintro ⟨s, hs⟩
  exact not_obstructed_of_climb hp hq (Place.mem_below_of_descend hb)
    (Place.mem_below_of_descend ha) hs

def SiteOf (p : Place) (d : Difference) (s : Site) : Prop :=
  ∃ k, FirstPosition p d.before k s.before ∧ Place.LevelsUp k d.after s.after ∧
    position? s.before = some s.position

end Climbs

theorem exists_climbAll_iff {limit limitAfter : Nat} {ds : List Difference} :
    (∃ sites, climbAll limit limitAfter ds = .ok sites) ↔
      ∀ d ∈ ds, ∃ s, climb limit limitAfter d = .ok s := by
  constructor
  · rintro ⟨sites, h⟩ d hd
    obtain ⟨s, _, hs⟩ := (climb_of_mem_climbAll h).2 d hd
    exact ⟨s, hs⟩
  · intro h
    induction ds with
    | nil => exact ⟨[], rfl⟩
    | cons d ds ih =>
      obtain ⟨s, hs⟩ := h d List.mem_cons_self
      obtain ⟨sites, hsites⟩ := ih fun e he => h e (List.mem_cons_of_mem d he)
      refine ⟨s :: sites, ?_⟩
      rw [climbAll, hs, hsites]
      rfl

theorem classify_eq_error_iff {limit limitAfter : Nat} {ds : List Difference} :
    (∃ why, classify ds limit limitAfter = .error why) ↔
      ∃ d ∈ ds, ¬∃ s, climb limit limitAfter d = .ok s := by
  have hnot : (∃ why, classify ds limit limitAfter = .error why) ↔
      ¬∃ sites, climbAll limit limitAfter ds = .ok sites := by
    unfold classify
    cases climbAll limit limitAfter ds <;> simp [bind, Except.bind, pure, Except.pure]
  rw [hnot, exists_climbAll_iff]
  simp only [not_forall, exists_prop]

theorem classify_of_sorted {limit limitAfter : Nat} {ds : List Difference} {climbed : List Site}
    (h : climbAll limit limitAfter ds = .ok climbed)
    (hsorted : climbed.Pairwise fun a b => a.precedes b = true) :
    classify ds limit limitAfter = .ok (dropNested [] climbed) := by
  rw [classify, h]
  change Except.ok (fold climbed) = _
  rw [fold, List.mergeSort_of_pairwise hsorted]

/-- Sites according to the rule: the outermost of the first positions, with nothing left over. -/
structure Classified (p q : Place) (ds : List Difference) (sites : List Site) : Prop where
  mem_iff : ∀ s, s ∈ sites ↔ (∃ d ∈ ds, SiteOf p d s) ∧
    ∀ d ∈ ds, ∀ k m, FirstPosition p d.before k m → s.before ∈ m.below → m = s.before
  nodup : (sites.map Site.before).Nodup
  holds : ∀ d ∈ ds, ∃! s, s ∈ sites ∧ d.before ∈ s.before.below
  positions : ∀ s ∈ sites, position? s.before = some s.position ∧
    position? s.after = some s.position
  scopes : ∀ s ∈ sites, InScopeOf p s.before ∧ InScopeOf q s.after

section Rule

variable {root p q : Place} {ds : List Difference} {sites : List Site} {s t : Site}

theorem site_eq_of_shared {x : Place} (h : Place.Unrelated (sites.map Site.before))
    (hs : s ∈ sites) (ht : t ∈ sites) (hxs : x ∈ s.before.below) (hxt : x ∈ t.before.below) :
    s = t := by
  obtain ⟨i, hi⟩ := List.mem_iff_getElem?.1 hs
  obtain ⟨j, hj⟩ := List.mem_iff_getElem?.1 ht
  have hi' : (sites.map Site.before)[i]? = some s.before := by
    rw [List.getElem?_map, hi]
    rfl
  have hj' : (sites.map Site.before)[j]? = some t.before := by
    rw [List.getElem?_map, hj]
    rfl
  have hij := h.index_eq hi' hj' hxs hxt
  rw [hij, hj, Option.some.injEq] at hi
  exact hi.symm

theorem nodup_of_unrelated {places : List Place} (h : Place.Unrelated places) :
    places.Nodup := by
  refine h.imp ?_
  intro a b hab heq
  exact hab a a.mem_below_self (heq ▸ a.mem_below_self)

/-- The nodes above the two sides have the same names, so one side shows the scopes of both. -/
theorem InScopeOf.after {d : Difference} {path front : List Nat} (hp : p.Distinct)
    (hq : q.Distinct) (hd : Located p q d path) (hs : p.descend front = some s.before)
    (hs' : q.descend front = some s.after) (hfront : front <+: path)
    (h : InScopeOf p s.before) : InScopeOf q s.after := by
  intro n hway hns
  obtain ⟨hn, hne, hin⟩ := hway
  obtain ⟨up, hup⟩ := Place.mem_below_iff_descend.1 hn
  obtain ⟨rest, hrest⟩ := Place.mem_below_iff_descend.1 hin
  -- `n` stands on the path to the site, where the node on the other side has the same name
  have hsplit : front = up ++ rest := hq.path_eq hs' (Place.descend_append.2 ⟨n, hup, hrest⟩)
  have hrestne : rest ≠ [] := by
    rintro rfl
    exact hns (Option.some.inj hrest)
  have hupne : up ≠ [] := by
    rintro rfl
    exact hne (Option.some.inj hup).symm
  have hupfront : up <+: front := ⟨rest, hsplit.symm⟩
  have hshorter : up.length < front.length := by
    rw [hsplit, List.length_append]
    have hpos := List.length_pos_of_ne_nil hrestne
    omega
  obtain ⟨x, y, hx, hy, hname, _⟩ := hd.ancestors up (hupfront.trans hfront) (by
    rintro rfl
    have hle := hfront.length_le
    omega)
  rw [hup, Option.some.injEq] at hy
  subst hy
  have hxway : p.OnWay s.before x := by
    refine ⟨Place.mem_below_of_descend hx, ?_, Place.mem_below_of_longer hx hs hupfront⟩
    intro heq
    rw [heq] at hx
    exact hupne (hp.path_eq hx (Place.descend_nil p))
  have hxs : x ≠ s.before := by
    intro heq
    rw [heq] at hx
    rw [hp.path_eq hx hs] at hshorter
    omega
  have hkind : n.kind = x.kind := congrArg Kind.ofName hname.symm
  rw [hkind]
  exact h x hxway hxs

structure Settles (p q : Place) (d : Difference) (s : Site) : Prop where
  site : SiteOf p d s
  inside : d.before ∈ s.before.below
  aligned : ∃ path, p.descend path = some s.before ∧ q.descend path = some s.after
  position_before : position? s.before = some s.position
  position_after : position? s.after = some s.position
  scopes : InScopeOf p s.before ∧ InScopeOf q s.after

theorem settles_of_climb {d : Difference} (hp : p.Distinct) (hq : q.Distinct)
    (hcompare : compareAt p q = some ds) (hd : d ∈ ds) (h : climb p.id q.id d = .ok s) :
    Settles p q d s := by
  obtain ⟨path, hlocated⟩ := located_of_mem hcompare hd
  have hb := Place.mem_below_of_descend hlocated.before
  have ha := Place.mem_below_of_descend hlocated.after
  obtain ⟨_, levels, hlevels⟩ := (climb_eq_ok_iff hp hq hb ha).1 h
  have hfirst := hlevels.firstPosition hp hb
  have hscope := (inInnerScope_iff hp hfirst.way.1 hfirst.way.2.1).1 hlevels.scope
  obtain ⟨front, _, hs, hs', _, hin⟩ :=
    hlevels.toClimbed.descend hlocated.before hlocated.after
  obtain ⟨rest, hrest⟩ := Place.mem_below_iff_descend.1 hin
  have hpath := hp.path_eq hlocated.before (Place.descend_append.2 ⟨s.before, hs, hrest⟩)
  exact
    { site := ⟨levels, hfirst, hlevels.after, hlevels.position_before⟩
      inside := hin
      aligned := ⟨front, hs, hs'⟩
      position_before := hlevels.position_before
      position_after := hlevels.position_after
      scopes := ⟨hscope, hscope.after hp hq hlocated hs hs' ⟨rest, hpath.symm⟩⟩ }

theorem Settles.before_eq {d : Difference} {k : Nat} {m : Place} (h : Settles p q d s)
    (hm : FirstPosition p d.before k m) : m = s.before := by
  obtain ⟨levels, hfirst, _, _⟩ := h.site
  exact (hm.unique hfirst).2

theorem SiteOf.unique {d : Difference} (hs : SiteOf p d s) (ht : SiteOf p d t) : s = t := by
  obtain ⟨k, hfirst, hup, hposition⟩ := hs
  obtain ⟨j, hfirst', hup', hposition'⟩ := ht
  obtain ⟨rfl, hbefore⟩ := hfirst.unique hfirst'
  have hafter : s.after = t.after := Place.line_injective (hup.trans hup'.symm)
  rw [hbefore, hposition', Option.some.injEq] at hposition
  obtain ⟨before, after, position⟩ := s
  subst hbefore hafter hposition
  rfl

theorem Settles.eq_of_before {d e : Difference} (hp : p.Distinct) (hs : Settles p q d s)
    (ht : Settles p q e t) (h : s.before = t.before) : s = t := by
  obtain ⟨path, hb, ha⟩ := hs.aligned
  obtain ⟨path', hb', ha'⟩ := ht.aligned
  have hposition := hs.position_before
  rw [h] at hb hposition
  rw [hp.path_eq hb hb', ha', Option.some.injEq] at ha
  rw [ht.position_before, Option.some.injEq] at hposition
  obtain ⟨before, after, position⟩ := s
  subst h ha hposition
  rfl

/-- Each site settles a difference, the site of each difference is within a returned one, and
returned ones have nothing in common. -/
structure Outcome (p q : Place) (ds : List Difference) (sites : List Site) : Prop where
  settled : ∀ s ∈ sites, ∃ d ∈ ds, Settles p q d s
  covered : ∀ d ∈ ds, ∃ s, Settles p q d s ∧ ∃ outer ∈ sites, s.before ∈ outer.before.below
  unrelated : Place.Unrelated (sites.map Site.before)

theorem outcome_of_classify (hroot : root.Distinct) (htop : root.above = [])
    (hord : root.here.Ordered) (hp : p ∈ root.below) (hq : q ∈ root.below)
    (hpn : p.isToken = false) (hqn : q.isToken = false)
    (h : classify (differences p q) p.id q.id = .ok sites) :
    Outcome p q (differences p q) sites := by
  have hcompare := compareAt_eq_differences hpn hqn
  have hapart := apart_of_classify hroot htop hord hp hpn hqn h
  have hmem := mem_below_of_classify htop hp hq h
  obtain ⟨climbed, hclimb, rfl⟩ := fold_of_classify h
  obtain ⟨hsites, hall⟩ := climb_of_mem_climbAll hclimb
  have hsettles : ∀ d ∈ differences p q, ∀ s, climb p.id q.id d = .ok s → Settles p q d s :=
    fun d hd s hs =>
      settles_of_climb (hroot.of_mem_below hp) (hroot.of_mem_below hq) hcompare hd hs
  refine ⟨?_, ?_, unrelated_of_apart htop (fun s hs => (hmem s hs).1) hapart⟩
  · intro s hs
    obtain ⟨d, hd, hds⟩ := hsites s (mem_of_mem_fold hs)
    exact ⟨d, hd, hsettles d hd s hds⟩
  · intro d hd
    obtain ⟨s, hs, hds⟩ := hall d hd
    have hsettled := hsettles d hd s hds
    obtain ⟨outer, ho, hwithin⟩ := covered_by_fold hs
    obtain ⟨path, hb, _⟩ := hsettled.aligned
    refine ⟨s, hsettled, outer, ho, ?_⟩
    exact (hroot.isWithin_iff_mem_below htop
      (Place.below_trans hp (Place.mem_below_of_descend hb)) (hmem outer ho).1).1 hwithin

theorem Outcome.outermost {d : Difference} {k : Nat} {m : Place} (h : Outcome p q ds sites)
    (hs : s ∈ sites) (hd : d ∈ ds) (hm : FirstPosition p d.before k m)
    (hsm : s.before ∈ m.below) : m = s.before := by
  obtain ⟨t, ht, outer, ho, hto⟩ := h.covered d hd
  have hmt := ht.before_eq hm
  subst hmt
  -- the outer site holds both, so it is the given one
  have hsame := site_eq_of_shared h.unrelated hs ho s.before.mem_below_self
    (Place.below_trans hto hsm)
  subst hsame
  exact Place.below_antisymm hsm hto

theorem Outcome.mem_of_outermost {d : Difference} (hp : p.Distinct) (h : Outcome p q ds sites)
    (hd : d ∈ ds) (hs : SiteOf p d s)
    (houter : ∀ e ∈ ds, ∀ k m, FirstPosition p e.before k m → s.before ∈ m.below → m = s.before) :
    s ∈ sites := by
  obtain ⟨t, ht, outer, ho, hto⟩ := h.covered d hd
  have hst := hs.unique ht.site
  subst hst
  obtain ⟨e, he, hsettled⟩ := h.settled outer ho
  obtain ⟨k, hfirst, _, _⟩ := hsettled.site
  have hsame := hsettled.eq_of_before hp ht (houter e he k outer.before hfirst hto)
  subst hsame
  exact ho

theorem Outcome.classified (hp : p.Distinct) (h : Outcome p q ds sites) :
    Classified p q ds sites where
  mem_iff s := by
    constructor
    · intro hs
      obtain ⟨d, hd, hsettled⟩ := h.settled s hs
      exact ⟨⟨d, hd, hsettled.site⟩, fun e he k m hm hsm => h.outermost hs he hm hsm⟩
    · rintro ⟨⟨d, hd, hsite⟩, houter⟩
      exact h.mem_of_outermost hp hd hsite houter
  nodup := nodup_of_unrelated h.unrelated
  holds d hd := by
    obtain ⟨s, hs, outer, ho, hso⟩ := h.covered d hd
    have hin := Place.below_trans hso hs.inside
    refine ⟨outer, ⟨ho, hin⟩, ?_⟩
    intro t ht
    exact site_eq_of_shared h.unrelated ht.1 ho ht.2 hin
  positions s hs := by
    obtain ⟨d, _, hsettled⟩ := h.settled s hs
    exact ⟨hsettled.position_before, hsettled.position_after⟩
  scopes s hs := by
    obtain ⟨d, _, hsettled⟩ := h.settled s hs
    exact hsettled.scopes

end Rule

/-- Two nodes have no sites exactly if one of their differences is obstructed. Otherwise the sites
are the outermost of the first positions above the differences. -/
theorem classify_by_rule {source : Source} {cst : Cst} {tree : Tree} {p q : Place} {b a : Nat}
    (htree : Tree.ofCst source cst = .ok tree) (hw : cst.WellFormed) (hp : tree.get? b = some p)
    (hq : tree.get? a = some q) (hpn : p.isToken = false) (hqn : q.isToken = false) :
    ((∃ why, classify (differences p q) b a = .error why) ↔
        ∃ d ∈ differences p q, Obstructed p q d) ∧
      ∀ sites, classify (differences p q) b a = .ok sites →
        Classified p q (differences p q) sites := by
  obtain ⟨root, hl⟩ := lowered_of_ofCst htree
  have hproot := hl.mem_below hp
  have hqroot := hl.mem_below hq
  have hpd := hl.distinct.of_mem_below hproot
  have hqd := hl.distinct.of_mem_below hqroot
  rw [← hl.id_of_get? hp, ← hl.id_of_get? hq]
  constructor
  · rw [classify_eq_error_iff]
    apply exists_congr
    intro d
    apply and_congr_right
    intro hd
    obtain ⟨path, hb, ha⟩ := descend_of_mem_compare (compareAt_eq_differences hpn hqn) hd
    rw [exists_site_iff hpd hqd hb ha, not_not]
  · intro sites h
    exact (outcome_of_classify hl.distinct hl.top (hl.ordered hw) hproot hqroot hpn hqn
      h).classified hpd

def chainedText : Source :=
  .ofText "\x7b f(a.g(b)); f(c.g(d)); h(c.g(d)); \x7d".toList

/-- The tree of a call with a call on a name as its argument, which has a name as its argument. -/
def chainedCall (start : Nat) : Cst :=
  .part "expression_statement" start 10 none [
    .part "method_invocation" start 9 none [
      .part "identifier" start 1 (some "name") [],
      .part "argument_list" (start + 1) 8 (some "arguments") [
        .mark "(" (start + 1),
        .part "method_invocation" (start + 2) 6 none [
          .part "identifier" (start + 2) 1 (some "object") [],
          .mark "." (start + 3),
          .part "identifier" (start + 4) 1 (some "name") [],
          .part "argument_list" (start + 5) 3 (some "arguments") [
            .mark "(" (start + 5),
            .part "identifier" (start + 6) 1 none [],
            .mark ")" (start + 7)]],
        .mark ")" (start + 8)]],
    .mark ";" (start + 9)]

def chainedTree : Cst :=
  .part "block" 0 36 none [
    .mark "\x7b" 0, chainedCall 2, chainedCall 13, chainedCall 24, .mark "\x7d" 35]

/-- The first two calls differ at the object and at the argument of the inner call. The object has
to be exchanged with the whole inner call, which takes the argument in. The third call has another
name, and a name has no position. -/
theorem inner_argument_is_taken_in : ∃ tree p q r sites,
    Tree.ofCst chainedText chainedTree = .ok tree ∧ chainedTree.WellFormed ∧
    tree.get? 2 = some p ∧ tree.get? 21 = some q ∧ tree.get? 40 = some r ∧
    (differences p q).map (fun d => (d.before.id, d.after.id)) = [(9, 28), (16, 35)] ∧
    classify (differences p q) 2 21 = .ok sites ∧
    sites.map (fun s => (s.before.id, s.after.id, s.position)) = [(8, 27, .argument)] ∧
    Classified p q (differences p q) sites ∧
    ∃ d ∈ differences p r, Obstructed p r d := by
  have hcheck : (match Tree.ofCst chainedText chainedTree with
      | .ok tree => (tree.get? 2).any fun p => (tree.get? 21).any fun q =>
          (tree.get? 40).any fun r => !p.isToken && !q.isToken && !r.isToken &&
            (differences p q).map (fun d => (d.before.id, d.after.id)) == [(9, 28), (16, 35)] &&
            (climbAll 2 21 (differences p q)).toOption.any (fun climbed =>
              decide (climbed.Pairwise fun a b => a.precedes b = true) &&
                (dropNested [] climbed).map (fun s => (s.before.id, s.after.id, s.position)) ==
                  [(8, 27, .argument)]) &&
            (differences p r).any fun d => !(climb 2 40 d).toOption.isSome
      | .error _ => false) = true := by
    decide +kernel
  have hw : chainedTree.WellFormed := by decide
  split at hcheck
  · rename_i tree htree
    simp only [Bool.and_eq_true, Option.any_eq_true, Bool.not_eq_true', beq_iff_eq,
      decide_eq_true_eq, List.any_eq_true] at hcheck
    obtain ⟨p, hp, q, hq, r, hr, ⟨⟨⟨⟨hpn, hqn⟩, hrn⟩, htwo⟩, climbed, hclimbed, hsorted, hone⟩,
      d, hd, hnone⟩ := hcheck
    have hall : climbAll 2 21 (differences p q) = .ok climbed := by
      cases hclimb : climbAll 2 21 (differences p q) with
      | error why => simp [hclimb, Except.toOption] at hclimbed
      | ok found => simpa [hclimb, Except.toOption] using hclimbed
    have hok := classify_of_sorted hall hsorted
    have hfail : ∃ why, classify (differences p r) 2 40 = .error why := by
      refine classify_eq_error_iff.2 ⟨d, hd, ?_⟩
      rintro ⟨s, hs⟩
      simp [hs, Except.toOption] at hnone
    exact ⟨tree, p, q, r, dropNested [] climbed, htree, hw, hp, hq, hr, htwo, hok, hone,
      (classify_by_rule htree hw hp hq hpn hqn).2 _ hok,
      (classify_by_rule htree hw hp hr hpn hrn).1.1 hfail⟩
  · simp at hcheck

end IfCollapse.Branch
