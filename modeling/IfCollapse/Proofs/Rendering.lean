import IfCollapse.Proofs.Applicability
import IfCollapse.Proofs.Boundaries
import IfCollapse.Proofs.Separation
import IfCollapse.Proofs.Strays

/-! The text of a replacement. The sites of a statement come out sorted and without overlap, so the
text between them can be cut out of the source piece by piece. -/

namespace IfCollapse.Branch

open Java

theorem dropNested_sublist (kept sites : List Site) :
    (dropNested kept sites).Sublist (kept.reverse ++ sites) := by
  induction sites generalizing kept with
  | nil => simp [dropNested]
  | cons site sites ih =>
    rw [dropNested]
    split
    · exact (ih kept).trans ((List.Sublist.refl kept.reverse).append (List.sublist_cons_self _ _))
    · simpa using ih (site :: kept)

theorem pairwise_precedes_fold (sites : List Site) :
    (fold sites).Pairwise fun a b => a.precedes b = true :=
  (List.pairwise_mergeSort Site.precedes_trans Site.precedes_total sites).sublist
    (dropNested_sublist [] _)

section Sites

variable {source : Source} {cst : Cst} {tree : Tree} {root p q : Place} {a b : Site}
  {part : List Site}

theorem stop_le_start_of_apart (hord : root.here.Ordered) (ha : a.before ∈ root.below)
    (hb : b.before ∈ root.below) (hfirst : a.precedes b = true) (hapart : a.Apart b) :
    a.before.span.stop ≤ b.before.span.start := by
  have hnonempty := (Place.span_of_mem_below hord hb).1.nonempty
  change b.before.span.start < b.before.span.stop at hnonempty
  rw [Site.precedes_iff] at hfirst
  rcases Place.nested_or_apart hord ha hb with hin | hin | hle | hle
  · have hwithin := Place.isWithin_of_mem_below hin
    simp [hapart.2] at hwithin
  · have hwithin := Place.isWithin_of_mem_below hin
    simp [hapart.1] at hwithin
  · exact hle
  · omega

theorem isToken_of_alike {s t : Shape} (h : Alike s t) : s.isToken = t.isToken := by
  cases s <;> cases t <;> simp_all [Alike, Shape.isToken]

theorem separated_of_classify (hl : Lowered source cst tree root) (hord : root.here.Ordered)
    (hp : p ∈ root.below) (hq : q ∈ root.below) (hc : Comparable p q)
    (h : classify (differences p q) p.id q.id = .ok part) :
    part.Pairwise fun a b => a.before.span.stop ≤ b.before.span.start := by
  obtain ⟨climbed, hclimb, hfold⟩ := fold_of_classify h
  cases hpn : p.isToken with
  | true =>
    -- tokens that agree have no difference
    have halike : Alike p.here q.here := by
      cases hc with
      | inl hnodes => simp [hpn] at hnodes
      | inr halike => exact halike
    have hnone : differences p q = [] := by
      have hsame := compareAt_of_alike_tokens hpn halike
      simp only [compareAt] at hsame
      simp [differences, hsame]
    rw [hnone, climbAll, Except.ok.injEq] at hclimb
    rw [hfold, ← hclimb]
    simp [fold, dropNested]
  | false =>
    have hqn : q.isToken = false := by
      cases hc with
      | inl hnodes => exact hnodes.2
      | inr halike => exact (isToken_of_alike halike).symm.trans hpn
    have hapart := apart_of_classify hl.distinct hl.top hord hp hpn hqn h
    have hsorted := pairwise_precedes_fold climbed
    rw [← hfold] at hsorted
    have hbelow := mem_below_of_classify hl.top hp hq h
    refine (hapart.and hsorted).imp_of_mem ?_
    intro a b ha hb hab
    exact stop_le_start_of_apart hord (hbelow a ha).1 (hbelow b hb).1 hab.2 hab.1

end Sites

section Text

variable {source : Source} {stop cursor : Nat} {cs : List Conditional}

theorem Conditional.render_ne_nil (c : Conditional) : c.render ≠ [] := by
  unfold render
  split <;> simp [parenthesize]

theorem exists_renderFrom (hle : cursor ≤ stop) (hcursor : isBoundary source.text cursor = true)
    (hstop : isBoundary source.text stop = true)
    (hin : ∀ c ∈ cs, cursor ≤ c.target.span.start ∧ c.target.span.stop ≤ stop ∧
      isBoundary source.text c.target.span.start = true ∧
      isBoundary source.text c.target.span.stop = true)
    (hsorted : cs.Pairwise fun a b => a.target.span.stop ≤ b.target.span.start) :
    ∃ text, Statement.renderFrom source stop cursor cs = .ok text ∧
      (cursor < stop → text ≠ []) := by
  induction cs generalizing cursor with
  | nil =>
    have hslice : ∃ text, slice source.text ⟨cursor, stop, hle⟩ = .ok text :=
      exists_slice hcursor hstop
    obtain ⟨text, htext⟩ := hslice
    refine ⟨text, ?_, fun hlt => ne_nil_of_slice htext hlt⟩
    simp only [Statement.renderFrom, Span.make_of_le hle, bind, Except.bind, Source.slice, htext]
  | cons c cs ih =>
    obtain ⟨hstart, hend, hfirst, hlast⟩ := hin c List.mem_cons_self
    have hslice : ∃ gap, slice source.text ⟨cursor, c.target.span.start, hstart⟩ = .ok gap :=
      exists_slice hcursor hfirst
    obtain ⟨gap, hgap⟩ := hslice
    obtain ⟨hnext, hrest⟩ := List.pairwise_cons.1 hsorted
    obtain ⟨rest, hrender, _⟩ := ih hend hlast (fun d hd =>
      ⟨hnext d hd, (hin d (List.mem_cons_of_mem c hd)).2⟩) hrest
    refine ⟨gap ++ c.render ++ rest, ?_, ?_⟩
    · simp only [Statement.renderFrom, Span.make_of_le hstart, bind, Except.bind, Source.slice,
        hgap, hrender, pure, Except.pure]
    · intro _
      simp [c.render_ne_nil]

theorem eq_of_pieces_eq_singleton {separator : Char} {text first : List Char}
    (h : pieces separator text = [first]) : text = first := by
  induction text generalizing first with
  | nil => simpa [pieces] using h
  | cons c text ih =>
    rw [pieces] at h
    split at h
    · simp [pieces_ne_nil] at h
    · cases hpieces : pieces separator text with
      | nil => exact absurd hpieces (pieces_ne_nil separator text)
      | cons piece more =>
        simp only [hpieces, consFirst, List.cons.injEq] at h
        rw [ih (hpieces.trans (by rw [h.2])), h.1]

theorem reindent_ne_nil {text : List Char} (old new : List Char) (h : text ≠ []) :
    reindent text old new ≠ [] := by
  unfold reindent
  split
  · exact h
  · cases hpieces : pieces '\n' text with
    | nil => exact absurd hpieces (pieces_ne_nil '\n' text)
    | cons first lines =>
      cases lines with
      | nil =>
        rw [eq_of_pieces_eq_singleton hpieces] at h
        simpa [joinLines] using h
      | cons line lines => simp [joinLines]

theorem intercalate_ne_nil {separator text : List Char} {texts : List (List Char)} (h : text ≠ []) :
    separator.intercalate (text :: texts) ≠ [] := by
  cases texts <;> simp [List.intercalate, h]

end Text

section Replaced

variable {text : List Char} {cst : Cst} {tree : Tree} {root place condition : Place} {id : Nat}
  {r : Replacement} {sites : List Site} {borrowed : List Place} {s : Statement}

theorem Replaced.separated {source : Source} (hl : Lowered source cst tree root)
    (hord : root.here.Ordered) (h : Replaced tree id r place condition sites borrowed)
    (hs : s ∈ r.statements) :
    s.substitutions.Pairwise fun a b => a.target.span.stop ≤ b.target.span.start := by
  rw [h.statements] at hs
  obtain ⟨t, ht, rfl⟩ := List.mem_map.1 hs
  obtain ⟨i, hi⟩ := List.mem_iff_getElem?.1 ht
  have hlt : i < (elseBranch place).length := by
    rw [← h.sameCount]
    exact (List.getElem?_eq_some_iff.1 hi).1
  have he : (elseBranch place)[i]? = some (elseBranch place)[i] := List.getElem?_eq_getElem hlt
  have hplace := hl.mem_below h.get
  obtain ⟨part, hclass, hsubs⟩ := h.substitutions_eq_filter hl (ownOrOutside hl hplace) hi he
  have hpart : part.Pairwise fun a b => a.before.span.stop ≤ b.before.span.start := by
    have hemem := List.mem_of_getElem? he
    by_cases hc : Comparable t (elseBranch place)[i]
    · exact separated_of_classify hl hord (h.then_mem hl ht) (h.else_mem hl hemem) hc hclass
    · obtain ⟨stray, rfl, _⟩ := outside_of_not_comparable hl hplace ht hemem hc hclass
      exact List.pairwise_singleton _ _
  change (substitutionsIn (innerCondition condition) sites t).Pairwise _
  rw [hsubs, List.pairwise_map]
  exact hpart.sublist List.filter_sublist

theorem Replaced.exists_render {source : Source} (hl : Lowered source cst tree root)
    (hord : root.here.Ordered) (h : Replaced tree id r place condition sites borrowed)
    (hs : s ∈ r.statements) : ∃ text, s.render source = .ok text ∧ text ≠ [] := by
  obtain ⟨htemplate, hsubs⟩ := h.mem_below hl hs
  obtain ⟨hstart, hstop⟩ := boundaries_of_slice (hl.texts _ htemplate)
  have hinner := (Place.span_of_mem_below hord htemplate).1
  have hin : ∀ c ∈ s.substitutions, s.template.span.start ≤ c.target.span.start ∧
      c.target.span.stop ≤ s.template.span.stop ∧
      isBoundary source.text c.target.span.start = true ∧
      isBoundary source.text c.target.span.stop = true := by
    intro c hc
    have htarget := (hsubs c hc).2.1
    obtain ⟨_, hfirst, hlast⟩ := Place.span_of_mem_below hinner htarget
    exact ⟨hfirst, hlast, boundaries_of_slice (hl.texts _ (Place.below_trans htemplate htarget))⟩
  obtain ⟨text, htext, hne⟩ := exists_renderFrom s.template.span.ordered hstart hstop hin
    (h.separated hl hord hs)
  exact ⟨text, htext, hne hinner.nonempty⟩

theorem exists_renderStatements (indent : List Char) {statements : List Statement}
    (h : ∀ s ∈ statements, ∃ t, s.render (.ofText text) = .ok t ∧ t ≠ []) :
    ∃ texts, Replacement.renderStatements (.ofText text) indent statements = .ok texts ∧
      texts.length = statements.length ∧ ∀ t ∈ texts, t ≠ [] := by
  induction statements with
  | nil => exact ⟨[], rfl, rfl, by simp⟩
  | cons s statements ih =>
    obtain ⟨own, hown⟩ := Source.exists_indentationOf text s.template.span.start
    obtain ⟨t, ht, hne⟩ := h s List.mem_cons_self
    obtain ⟨texts, htexts, hlength, hall⟩ := ih fun u hu => h u (List.mem_cons_of_mem s hu)
    refine ⟨reindent t own indent :: texts, ?_, by simp [hlength], ?_⟩
    · simp only [Replacement.renderStatements, hown, ht, htexts, bind, Except.bind, pure,
        Except.pure]
    · intro u hu
      cases List.mem_cons.1 hu with
      | inl heq =>
        rw [heq]
        exact reindent_ne_nil own indent hne
      | inr hmem => exact hall u hmem

theorem Replaced.exists_text (hl : Lowered (.ofText text) cst tree root) (hord : root.here.Ordered)
    (h : Replaced tree id r place condition sites borrowed) :
    ∃ t, r.render (.ofText text) = .ok t ∧ t ≠ [] := by
  obtain ⟨indent, hindent⟩ := Source.exists_indentationOf text r.ifStatement.span.start
  obtain ⟨texts, htexts, hlength, hall⟩ := exists_renderStatements indent fun s hs =>
    h.exists_render hl hord hs
  refine ⟨('\n' :: indent).intercalate texts, ?_, ?_⟩
  · simp only [Replacement.render, hindent, htexts, bind, Except.bind, pure, Except.pure]
  · cases texts with
    | nil => exact absurd (List.length_eq_zero_iff.1 hlength.symm) h.statements_ne_nil
    | cons t texts => exact intercalate_ne_nil (hall t List.mem_cons_self)

theorem Replacement.exists_span (r : Replacement) : ∃ span, r.span = .ok span := by
  have hmax : ∀ (places : List Place) (stop : Nat),
      stop ≤ places.foldl (fun stop p => max stop p.span.stop) stop := by
    intro places
    induction places with
    | nil => simp
    | cons p places ih =>
      intro stop
      exact Nat.le_trans (Nat.le_max_left stop p.span.stop) (ih _)
  have hle := Nat.le_trans r.ifStatement.span.ordered (hmax r.borrowed _)
  exact ⟨_, Span.make_of_le hle⟩

theorem greatestStop_cases (places : List Place) (stop : Nat) :
    places.foldl (fun stop p => max stop p.span.stop) stop = stop ∨
      ∃ p ∈ places, places.foldl (fun stop p => max stop p.span.stop) stop = p.span.stop := by
  induction places generalizing stop with
  | nil => exact Or.inl rfl
  | cons p places ih =>
    rw [List.foldl_cons]
    cases ih (max stop p.span.stop) with
    | inl hsame =>
      rw [hsame]
      cases Nat.le_total stop p.span.stop with
      | inl hle => exact Or.inr ⟨p, List.mem_cons_self, Nat.max_eq_right hle⟩
      | inr hle => exact Or.inl (Nat.max_eq_left hle)
    | inr hlater =>
      obtain ⟨q, hq, hstop⟩ := hlater
      exact Or.inr ⟨q, List.mem_cons_of_mem p hq, hstop⟩

theorem Replaced.boundaries_span {source : Source} {span : Span}
    (hl : Lowered source cst tree root) (h : Replaced tree id r place condition sites borrowed)
    (hspan : r.span = .ok span) :
    isBoundary source.text span.start = true ∧ isBoundary source.text span.stop = true := by
  have hif : r.ifStatement ∈ root.below := by
    rw [h.built]
    exact hl.mem_below h.get
  have hbounds := boundaries_of_slice (hl.texts _ hif)
  obtain ⟨hstart, hstop⟩ := Span.make_eq_ok.1 hspan
  rw [hstart, hstop]
  refine ⟨hbounds.1, ?_⟩
  cases greatestStop_cases r.borrowed r.ifStatement.span.stop with
  | inl hsame =>
    rw [hsame]
    exact hbounds.2
  | inr hlater =>
    obtain ⟨p, hp, heq⟩ := hlater
    rw [heq]
    exact (boundaries_of_slice (hl.texts p (h.borrowed_mem hl hp))).2

end Replaced

end IfCollapse.Branch

namespace IfCollapse.Lint

open Java Branch

theorem exists_findingOf {text : List Char} {cst : Cst} {tree : Tree} {root : Place} {id : Nat}
    {r : Replacement} (hl : Lowered (.ofText text) cst tree root) (hwell : cst.WellFormed)
    (h : evaluate tree id = .ok (.replace r)) (comments : List Span) (keyword : Span) :
    ∃ finding, findingOf (.ofText text) comments keyword r = .ok finding := by
  obtain ⟨place, condition, sites, borrowed, hr⟩ := replaced_of_evaluate h
  obtain ⟨content, hcontent, hne⟩ := hr.exists_text hl (hl.ordered hwell)
  obtain ⟨span, hspan⟩ := r.exists_span
  have hedit : Edit.replacement content span = .ok ⟨span, some content⟩ := by
    simp [Edit.replacement, hne]
  simp only [findingOf, hcontent, hspan, hedit, bind, Except.bind, pure, Except.pure]
  exact ⟨_, rfl⟩

end IfCollapse.Lint
