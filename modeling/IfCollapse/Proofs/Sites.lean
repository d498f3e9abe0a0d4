import IfCollapse.Branch.Site
import IfCollapse.Proofs.Comparison

/-! Climbing from differences to sites, and folding nested sites. Both sides of a difference climb
equally far and stay inside the compared elements; folding keeps the outermost sites. -/

namespace IfCollapse.Branch

open Java

/-- A site `levels` above the places `p` and `q`, with what lies on the way to it. -/
structure Climbed (limit : Nat) (p q : Place) (site : Site) (levels : Nat) : Prop where
  before : site.before.line = p.line.drop levels
  after : site.after.line = q.line.drop levels
  position_before : position? site.before = some site.position
  position_after : position? site.after = some site.position
  scope : inInnerScope site.before limit = false
  /-- The climb ends before the limit. -/
  limited : ∀ m : Place, m.line <:+ p.line → site.before.line <:+ m.line → m.id ≠ limit
  /-- The site is the first place with a position. -/
  passed : ∀ m : Place, m.line <:+ p.line → site.before.line <:+ m.line → m ≠ site.before →
    position? m = none

/-- A climb with what it asks of the other side: that it stays below its limit and has the same role
on every level. -/
structure Ascent (limit limitAfter : Nat) (p q : Place) (site : Site) (levels : Nat) : Prop
    extends Climbed limit p q site levels where
  limited_after : ∀ n : Place, n.line <:+ q.line → site.after.line <:+ n.line → n.id ≠ limitAfter
  roles : ∀ (k : Nat) (m n : Place), k ≤ levels → m.line = p.line.drop k →
    n.line = q.line.drop k → m.field = n.field

section Nearest

variable {limit limitAfter : Nat} {p q : Place} {site : Site}

theorem suffix_cases {m : Place} {s u : Shape} {above : List Shape}
    (h : m.line <:+ s :: u :: above) : m = ⟨s, u :: above⟩ ∨ m.line <:+ u :: above := by
  cases List.suffix_cons_iff.1 h with
  | inl heq => exact Or.inl (Place.line_injective heq)
  | inr hsuffix => exact Or.inr hsuffix

theorem ascent_of_nearest {s t : Shape} {above above' : List Shape}
    (h : nearest limit limitAfter s above t above' = .ok site) :
    ∃ levels, Ascent limit limitAfter ⟨s, above⟩ ⟨t, above'⟩ site levels := by
  fun_induction nearest limit limitAfter s above t above' with
  | case1 => simp at h
  | case2 => simp at h
  | case3 => simp at h
  | case4 => simp at h
  | case5 above s t above' hlimit hfield position hpos hpos' hscope =>
    simp only [Except.ok.injEq] at h
    subst h
    refine ⟨0, ⟨rfl, rfl, hpos, by simpa using hpos', by simpa using hscope, ?_, ?_⟩, ?_, ?_⟩
    · intro m hm hm'
      rw [Place.eq_of_suffixes hm hm']
      exact fun he => hlimit (Or.inl he)
    · intro m hm hm' hne
      exact absurd (Place.eq_of_suffixes hm hm') hne
    · intro n hn hn'
      rw [Place.eq_of_suffixes hn hn']
      exact fun he => hlimit (Or.inr he)
    · intro k m n hk hm hn
      have hzero : k = 0 := by omega
      subst hzero
      rw [Place.line_injective hm, Place.line_injective hn]
      exact Decidable.not_not.1 hfield
  | case6 s t hlimit hfield u above u' above' hpos ih =>
    obtain ⟨levels, hc⟩ := ih h
    refine ⟨levels + 1, ⟨hc.before, hc.after, hc.position_before, hc.position_after, hc.scope,
      ?_, ?_⟩, ?_, ?_⟩
    · intro m hm hm'
      cases suffix_cases hm with
      | inl heq =>
        rw [heq]
        exact fun he => hlimit (Or.inl he)
      | inr hsuffix => exact hc.limited m hsuffix hm'
    · intro m hm hm' hne
      cases suffix_cases hm with
      | inl heq => exact heq ▸ hpos
      | inr hsuffix => exact hc.passed m hsuffix hm' hne
    · intro n hn hn'
      cases suffix_cases hn with
      | inl heq =>
        rw [heq]
        exact fun he => hlimit (Or.inr he)
      | inr hsuffix => exact hc.limited_after n hsuffix hn'
    · intro k m n hk hm hn
      cases k with
      | zero =>
        rw [Place.line_injective hm, Place.line_injective hn]
        exact Decidable.not_not.1 hfield
      | succ k => exact hc.roles k m n (by omega) hm hn
  | case7 => simp at h

theorem Ascent.levels_eq_zero_iff {levels : Nat} (h : Ascent limit limitAfter p q site levels) :
    levels = 0 ↔ position? p ≠ none := by
  constructor
  · intro hzero hnone
    have hp : site.before = p := Place.line_injective (by rw [h.before, hzero, List.drop_zero])
    rw [← hp, h.position_before] at hnone
    simp at hnone
  · intro hpos
    have hsuffix : site.before.line <:+ p.line := h.before ▸ List.drop_suffix levels p.line
    have hp : p = site.before := by
      by_contra hne
      exact hpos (h.passed p List.suffix_rfl hsuffix hne)
    have hlength := congrArg List.length h.before
    rw [← hp, List.length_drop, Place.line, List.length_cons] at hlength
    omega

theorem Ascent.start {levels : Nat} (h : Ascent limit limitAfter p q site levels) :
    ¬(p.id = limit ∨ q.id = limitAfter) ∧ p.field = q.field := by
  have hp : site.before.line <:+ p.line := h.before ▸ List.drop_suffix levels p.line
  have hq : site.after.line <:+ q.line := h.after ▸ List.drop_suffix levels q.line
  refine ⟨?_, h.roles 0 p q (Nat.zero_le levels) rfl rfl⟩
  intro hor
  cases hor with
  | inl hid => exact h.limited p List.suffix_rfl hp hid
  | inr hid => exact h.limited_after q List.suffix_rfl hq hid

theorem Ascent.rest {levels : Nat} {s t u u' : Shape} {above above' : List Shape}
    (h : Ascent limit limitAfter ⟨s, u :: above⟩ ⟨t, u' :: above'⟩ site (levels + 1)) :
    Ascent limit limitAfter ⟨u, above⟩ ⟨u', above'⟩ site levels where
  before := h.before
  after := h.after
  position_before := h.position_before
  position_after := h.position_after
  scope := h.scope
  limited m hm := h.limited m (hm.trans (List.suffix_cons s (u :: above)))
  passed m hm := h.passed m (hm.trans (List.suffix_cons s (u :: above)))
  limited_after n hn := h.limited_after n (hn.trans (List.suffix_cons t (u' :: above')))
  roles k m n hk hm hn := h.roles (k + 1) m n (by omega) hm hn

theorem nearest_of_ascent {levels : Nat} (h : Ascent limit limitAfter p q site levels) :
    nearest limit limitAfter p.here p.above q.here q.above = .ok site := by
  induction levels generalizing p q with
  | zero =>
    have hp : site.before = p := Place.line_injective h.before
    have hq : site.after = q := Place.line_injective h.after
    subst hp hq
    obtain ⟨hlimit, hfield⟩ := h.start
    simp only [Place.id, Place.field] at hlimit hfield
    rw [nearest.eq_def]
    simp [hlimit, hfield, h.position_before, h.position_after, h.scope]
  | succ levels ih =>
    obtain ⟨s, above⟩ := p
    obtain ⟨t, above'⟩ := q
    have hnone : position? ⟨s, above⟩ = none := by
      by_contra hsome
      have hzero := h.levels_eq_zero_iff.2 hsome
      omega
    cases above with
    | nil =>
      have hbefore := h.before
      simp [Place.line] at hbefore
    | cons u above =>
      cases above' with
      | nil =>
        have hafter := h.after
        simp [Place.line] at hafter
      | cons u' above' =>
        obtain ⟨hlimit, hfield⟩ := h.start
        simp only [Place.id, Place.field] at hlimit hfield
        rw [nearest.eq_def]
        simp only [hlimit, hfield, hnone, ↓reduceIte, ne_eq, not_true_eq_false]
        exact ih h.rest

end Nearest

theorem climbed_of_nearest {limit limitAfter : Nat} {s t : Shape} {above above' : List Shape}
    {site : Site} (h : nearest limit limitAfter s above t above' = .ok site) :
    ∃ levels, Climbed limit ⟨s, above⟩ ⟨t, above'⟩ site levels := by
  obtain ⟨levels, hascent⟩ := ascent_of_nearest h
  exact ⟨levels, hascent.toClimbed⟩

theorem climbed_of_climb {limit limitAfter : Nat} {d : Difference} {site : Site}
    (h : climb limit limitAfter d = .ok site) :
    ∃ levels, Climbed limit d.before d.after site levels := by
  unfold climb at h
  split at h
  · simp at h
  · exact climbed_of_nearest h

theorem climb_of_mem_climbAll {limit limitAfter : Nat} {ds : List Difference} {sites : List Site}
    (h : climbAll limit limitAfter ds = .ok sites) :
    (∀ site ∈ sites, ∃ d ∈ ds, climb limit limitAfter d = .ok site) ∧
      ∀ d ∈ ds, ∃ site ∈ sites, climb limit limitAfter d = .ok site := by
  induction ds generalizing sites with
  | nil =>
    simp only [climbAll, Except.ok.injEq] at h
    subst h
    simp
  | cons d ds ih =>
    rw [climbAll] at h
    cases hd : climb limit limitAfter d with
    | error obstacle => simp [hd] at h
    | ok site =>
      simp only [hd, bind, Except.bind, pure, Except.pure] at h
      cases hrest : climbAll limit limitAfter ds with
      | error why => simp [hrest] at h
      | ok rest =>
        simp only [hrest, Except.ok.injEq] at h
        subst h
        obtain ⟨hsites, hds⟩ := ih hrest
        constructor
        · intro s hs
          rcases List.mem_cons.1 hs with rfl | hs
          · exact ⟨d, List.mem_cons_self, hd⟩
          · obtain ⟨e, he, hes⟩ := hsites s hs
            exact ⟨e, List.mem_cons_of_mem _ he, hes⟩
        · intro e he
          rcases List.mem_cons.1 he with rfl | he
          · exact ⟨site, List.mem_cons_self, hd⟩
          · obtain ⟨s, hs, hes⟩ := hds e he
            exact ⟨s, List.mem_cons_of_mem _ hs, hes⟩

namespace Climbed

variable {p q x y : Place} {site : Site} {levels : Nat} {path : List Nat}

theorem descend (h : Climbed p.id x y site levels) (hx : p.descend path = some x)
    (hy : q.descend path = some y) :
    ∃ path', path' ≠ [] ∧ p.descend path' = some site.before ∧
      q.descend path' = some site.after ∧ site.before ∈ p.below ∧ x ∈ site.before.below := by
  obtain ⟨front, _, hline⟩ := Place.line_of_descend hx
  have hsuf : site.before.line <:+ x.line := h.before ▸ List.drop_suffix levels x.line
  have hlt : p.line.length < site.before.line.length := by
    by_contra hle
    have hp : p.line <:+ x.line := ⟨front, hline.symm⟩
    have hup := List.suffix_of_suffix_length_le hsuf hp (by omega)
    exact h.limited p hp hup rfl
  have hlenx := Place.length_line_of_descend hx
  have hleny := Place.length_line_of_descend hy
  have hdrop := congrArg List.length h.before
  rw [List.length_drop] at hdrop
  have hlevels : levels < path.length := by omega
  have htakex : (x.line.take levels).length = levels := by
    rw [List.length_take]
    omega
  have htakey : (y.line.take levels).length = levels := by
    rw [List.length_take]
    omega
  obtain ⟨hb, hxb⟩ := Place.descend_ancestor (m := site.before) hx
    (by rw [h.before, List.take_append_drop]) (by omega)
  obtain ⟨ha, _⟩ := Place.descend_ancestor (m := site.after) hy
    (by rw [h.after, List.take_append_drop]) (by omega)
  rw [htakex] at hb hxb
  rw [htakey] at ha
  refine ⟨path.take (path.length - levels), ?_, hb, ha, ?_, ?_⟩
  · intro hnil
    have hlen := congrArg List.length hnil
    rw [List.length_take, List.length_nil] at hlen
    omega
  · exact Place.mem_below_of_descend hb
  · exact Place.mem_below_of_descend hxb

end Climbed

theorem Site.precedes_iff {a b : Site} :
    a.precedes b = true ↔ a.before.span.start < b.before.span.start ∨
      (a.before.span.start = b.before.span.start ∧
        b.before.span.length ≤ a.before.span.length) := by
  simp [Site.precedes]

theorem Site.precedes_trans (a b c : Site) (hab : a.precedes b = true)
    (hbc : b.precedes c = true) : a.precedes c = true := by
  rw [Site.precedes_iff] at *
  omega

theorem Site.precedes_total (a b : Site) : (a.precedes b || b.precedes a) = true := by
  rw [Bool.or_eq_true, Site.precedes_iff, Site.precedes_iff]
  omega

def Site.Apart (a b : Site) : Prop :=
  a.before.isWithin b.before.id = false ∧ b.before.isWithin a.before.id = false

theorem mem_of_mem_dropNested {kept sites : List Site} {site : Site}
    (h : site ∈ dropNested kept sites) : site ∈ kept ∨ site ∈ sites := by
  induction sites generalizing kept with
  | nil => exact Or.inl (by simpa [dropNested] using h)
  | cons s sites ih =>
    rw [dropNested] at h
    split at h
    · rcases ih h with hk | hs
      · exact Or.inl hk
      · exact Or.inr (List.mem_cons_of_mem _ hs)
    · rcases ih h with hk | hs
      · rcases List.mem_cons.1 hk with rfl | hk
        · exact Or.inr List.mem_cons_self
        · exact Or.inl hk
      · exact Or.inr (List.mem_cons_of_mem _ hs)

theorem mem_dropNested_of_mem_kept {kept sites : List Site} {site : Site} (h : site ∈ kept) :
    site ∈ dropNested kept sites := by
  induction sites generalizing kept with
  | nil => simpa [dropNested] using h
  | cons s sites ih =>
    rw [dropNested]
    split
    · exact ih h
    · exact ih (List.mem_cons_of_mem _ h)

theorem covered_by_dropNested {kept sites : List Site} {site : Site} (h : site ∈ sites) :
    ∃ outer ∈ dropNested kept sites, site.before.isWithin outer.before.id = true := by
  induction sites generalizing kept with
  | nil => simp at h
  | cons s sites ih =>
    rw [dropNested]
    split
    · rename_i hany
      rcases List.mem_cons.1 h with rfl | hs
      · obtain ⟨outer, ho, hin⟩ := List.any_eq_true.1 hany
        exact ⟨outer, mem_dropNested_of_mem_kept ho, hin⟩
      · exact ih hs
    · rcases List.mem_cons.1 h with rfl | hs
      · exact ⟨site, mem_dropNested_of_mem_kept List.mem_cons_self,
          Place.isWithin_of_mem_below site.before.mem_below_self⟩
      · exact ih hs

theorem apart_of_dropNested {kept sites : List Site}
    (hkept : kept.Pairwise fun a b => a.Apart b)
    (horder : (kept.reverse ++ sites).Pairwise fun a b =>
      a.before.isWithin b.before.id = true → b.before.isWithin a.before.id = true) :
    (dropNested kept sites).Pairwise fun a b => a.Apart b := by
  induction sites generalizing kept with
  | nil =>
    rw [dropNested, List.pairwise_reverse]
    exact hkept.imp fun h => ⟨h.2, h.1⟩
  | cons s sites ih =>
    rw [dropNested]
    split
    · apply ih hkept
      refine horder.sublist ?_
      exact List.Sublist.append_left (List.sublist_cons_self s sites) _
    · rename_i hany
      apply ih
      · refine List.pairwise_cons.2 ⟨?_, hkept⟩
        intro outer ho
        have hout : s.before.isWithin outer.before.id = false := by
          have hnone := List.any_eq_false.1 (by simpa using hany) outer ho
          simpa using hnone
        refine ⟨hout, ?_⟩
        rw [List.pairwise_append] at horder
        have hos := horder.2.2 outer (List.mem_reverse.2 ho) s List.mem_cons_self
        by_contra hin
        rw [Bool.not_eq_false] at hin
        rw [hos hin] at hout
        simp at hout
      · rw [List.reverse_cons, List.append_assoc]
        exact horder

theorem fold_of_classify {limit limitAfter : Nat} {ds : List Difference} {sites : List Site}
    (h : classify ds limit limitAfter = .ok sites) :
    ∃ climbed, climbAll limit limitAfter ds = .ok climbed ∧ sites = fold climbed := by
  unfold classify at h
  cases hc : climbAll limit limitAfter ds with
  | error why => simp [hc, bind, Except.bind] at h
  | ok climbed =>
    simp only [hc, bind, Except.bind, pure, Except.pure, Except.ok.injEq] at h
    exact ⟨climbed, rfl, h.symm⟩

theorem mem_of_mem_fold {sites : List Site} {site : Site} (h : site ∈ fold sites) :
    site ∈ sites := by
  rcases mem_of_mem_dropNested h with hk | hs
  · simp at hk
  · exact List.mem_mergeSort.1 hs

theorem covered_by_fold {sites : List Site} {site : Site} (h : site ∈ sites) :
    ∃ outer ∈ fold sites, site.before.isWithin outer.before.id = true :=
  covered_by_dropNested (List.mem_mergeSort.2 h)

theorem compareAt_of_nodes {p q : Place} (hp : p.isToken = false) (hq : q.isToken = false) :
    ∃ ds, compareAt p q = some ds ∧ differences p q = ds := by
  cases h : compareAt p q with
  | some ds =>
    refine ⟨ds, rfl, ?_⟩
    simp only [compareAt] at h
    simp only [differences, h]
  | none =>
    obtain ⟨s, above⟩ := p
    obtain ⟨t, above'⟩ := q
    change compare above s above' t = none at h
    rw [compare.eq_def] at h
    cases s with
    | token a named => simp [Place.isToken, Shape.isToken] at hp
    | node a children =>
      cases t with
      | token b named => simp [Place.isToken, Shape.isToken] at hq
      | node b others =>
        simp only at h
        split at h
        · simp at h
        · split at h
          · simp at h
          · split at h <;> simp at h

structure Accepted (p q : Place) (ds : List Difference) (sites : List Site) : Prop where
  compared : compareAt p q = some ds
  aligned : ∀ s ∈ sites, ∃ path, path ≠ [] ∧ p.descend path = some s.before ∧
    q.descend path = some s.after
  /-- Every site holds a difference. -/
  tight : ∀ s ∈ sites, ∃ d ∈ ds, d.before ∈ s.before.below
  covered : ∀ d ∈ ds, ∃ s ∈ sites, d.before ∈ s.before.below

section Classify

variable {root p q : Place} {sites : List Site}

theorem accepted_of_classify (hroot : root.Distinct) (htop : root.above = [])
    (hp : p ∈ root.below) (hpn : p.isToken = false) (hqn : q.isToken = false)
    (h : classify (differences p q) p.id q.id = .ok sites) :
    ∃ ds, Accepted p q ds sites := by
  obtain ⟨ds, hds, hdiff⟩ := compareAt_of_nodes hpn hqn
  rw [hdiff] at h
  obtain ⟨climbed, hclimb, rfl⟩ := fold_of_classify h
  obtain ⟨hsites, hall⟩ := climb_of_mem_climbAll hclimb
  have haligned : ∀ d ∈ ds, ∀ s, climb p.id q.id d = .ok s → ∃ path, path ≠ [] ∧
      p.descend path = some s.before ∧ q.descend path = some s.after ∧
      s.before ∈ p.below ∧ d.before ∈ s.before.below := by
    intro d hd s hs
    obtain ⟨path, hb, ha⟩ := descend_of_mem_compare hds hd
    obtain ⟨levels, hc⟩ := climbed_of_climb hs
    exact hc.descend hb ha
  refine ⟨ds, hds, ?_, ?_, ?_⟩
  · intro s hs
    obtain ⟨d, hd, hds'⟩ := hsites s (mem_of_mem_fold hs)
    obtain ⟨path, hne, hb, ha, _, _⟩ := haligned d hd s hds'
    exact ⟨path, hne, hb, ha⟩
  · intro s hs
    obtain ⟨d, hd, hds'⟩ := hsites s (mem_of_mem_fold hs)
    obtain ⟨_, _, _, _, _, hin⟩ := haligned d hd s hds'
    exact ⟨d, hd, hin⟩
  · intro d hd
    obtain ⟨s, hs, hds'⟩ := hall d hd
    obtain ⟨outer, ho, hwithin⟩ := covered_by_fold hs
    obtain ⟨e, he, hes⟩ := hsites outer (mem_of_mem_fold ho)
    obtain ⟨_, _, _, _, hsp, hin⟩ := haligned d hd s hds'
    obtain ⟨_, _, _, _, hop, _⟩ := haligned e he outer hes
    have hso := (hroot.isWithin_iff_mem_below htop (Place.below_trans hp hsp)
      (Place.below_trans hp hop)).1 hwithin
    exact ⟨outer, ho, Place.below_trans hso hin⟩

/-- Two sites of one span, of which the later one holds the earlier, are the same place: between
them is only a chain of single children, and a difference on that chain would hold another. -/
theorem before_eq_of_same_span {ds : List Difference} {d e : Difference} {a b : Site} {m n : Nat}
    (hdist : p.Distinct) (hord : b.before.here.Ordered) (hcomp : compareAt p q = some ds)
    (hd : d ∈ ds) (he : e ∈ ds) (hda : climb p.id q.id d = .ok a) (heb : climb p.id q.id e = .ok b)
    (hca : Climbed p.id d.before d.after a m) (hcb : Climbed p.id e.before e.after b n)
    (hdin : d.before ∈ a.before.below) (hein : e.before ∈ b.before.below)
    (hab : a.before ∈ b.before.below) (hstart : b.before.span.start = a.before.span.start)
    (hstop : b.before.span.stop = a.before.span.stop) : a.before = b.before := by
  rcases Place.nested_of_same_span hord hab hein hstart hstop with hin | hin
  · by_contra hne
    have hnone := hcb.passed a.before (Place.line_suffix_of_mem_below hin)
      (Place.line_suffix_of_mem_below hab) hne
    rw [hca.position_before] at hnone
    simp at hnone
  · have hsame := difference_eq_of_mem_below hdist hcomp he hd (Place.below_trans hin hdin)
    subst hsame
    rw [hda] at heb
    cases heb
    rfl

theorem apart_of_classify (hroot : root.Distinct) (htop : root.above = [])
    (hord : root.here.Ordered) (hp : p ∈ root.below) (hpn : p.isToken = false)
    (hqn : q.isToken = false) (h : classify (differences p q) p.id q.id = .ok sites) :
    sites.Pairwise fun a b => a.Apart b := by
  obtain ⟨ds, hds, hdiff⟩ := compareAt_of_nodes hpn hqn
  rw [hdiff] at h
  obtain ⟨climbed, hclimb, rfl⟩ := fold_of_classify h
  have hsorted := List.pairwise_mergeSort Site.precedes_trans Site.precedes_total climbed
  apply apart_of_dropNested List.Pairwise.nil
  refine hsorted.imp_of_mem ?_
  intro a b ha hb hprec hwithin
  obtain ⟨d, hd, hda⟩ := (climb_of_mem_climbAll hclimb).1 a (List.mem_mergeSort.1 ha)
  obtain ⟨e, he, heb⟩ := (climb_of_mem_climbAll hclimb).1 b (List.mem_mergeSort.1 hb)
  obtain ⟨m, hca⟩ := climbed_of_climb hda
  obtain ⟨n, hcb⟩ := climbed_of_climb heb
  obtain ⟨path, hdb, hdafter⟩ := descend_of_mem_compare hds hd
  obtain ⟨path', heb', heafter⟩ := descend_of_mem_compare hds he
  obtain ⟨_, _, _, _, hap, hdin⟩ := hca.descend hdb hdafter
  obtain ⟨_, _, _, _, hbp, hein⟩ := hcb.descend heb' heafter
  have haroot := Place.below_trans hp hap
  have hbroot := Place.below_trans hp hbp
  have hab := (hroot.isWithin_iff_mem_below htop haroot hbroot).1 hwithin
  have hbo := (Place.span_of_mem_below hord hbroot).1
  obtain ⟨_, hlo, hhi⟩ := Place.span_of_mem_below hbo hab
  have hspan := a.before.span.ordered
  have hstart : b.before.span.start = a.before.span.start ∧
      b.before.span.stop = a.before.span.stop := by
    rw [Site.precedes_iff, Span.length, Span.length] at hprec
    omega
  have heq := before_eq_of_same_span (hroot.of_mem_below hp) hbo hds hd he hda heb hca hcb hdin hein
    hab hstart.1 hstart.2
  rw [heq]
  exact Place.isWithin_of_mem_below b.before.mem_below_self

theorem mem_below_of_classify {limit limitAfter : Nat} (htop : root.above = [])
    (hp : p ∈ root.below) (hq : q ∈ root.below)
    (h : classify (differences p q) limit limitAfter = .ok sites) :
    ∀ s ∈ sites, s.before ∈ root.below ∧ s.after ∈ root.below := by
  have hdiff : ∀ d ∈ differences p q, d.before ∈ root.below ∧ d.after ∈ root.below := by
    intro d hd
    unfold differences at hd
    split at hd
    · rename_i ds hds
      obtain ⟨path, hb, ha⟩ := descend_of_mem_compare (p := p) (q := q) hds hd
      exact ⟨Place.below_trans hp (Place.mem_below_of_descend hb),
        Place.below_trans hq (Place.mem_below_of_descend ha)⟩
    · split at hd
      · rename_i b a hb ha
        simp only [List.mem_singleton] at hd
        subst hd
        exact ⟨(Place.ancestor_mem_below htop hp (Place.line_suffix_of_parent hb)).1,
          (Place.ancestor_mem_below htop hq (Place.line_suffix_of_parent ha)).1⟩
      · simp at hd
  obtain ⟨climbed, hclimb, rfl⟩ := fold_of_classify h
  intro s hs
  obtain ⟨d, hd, hds⟩ := (climb_of_mem_climbAll hclimb).1 s (mem_of_mem_fold hs)
  obtain ⟨levels, hc⟩ := climbed_of_climb hds
  obtain ⟨hb, ha⟩ := hdiff d hd
  constructor
  · exact (Place.ancestor_mem_below htop hb (hc.before ▸ List.drop_suffix levels _)).1
  · exact (Place.ancestor_mem_below htop ha (hc.after ▸ List.drop_suffix levels _)).1

end Classify

end IfCollapse.Branch
