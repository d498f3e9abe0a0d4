import IfCollapse.Edit
import IfCollapse.Proofs.Boundaries

/-! Applying edits one after another, from the end of a text to its start, is the same as putting all
their contents in at once: the text between the edits stays, and each content takes the place of what
its edit covers. -/

namespace IfCollapse

def interleave {α : Type} : (gaps parts : List (List α)) → List α
  | [], parts => parts.flatten
  | gaps, [] => gaps.flatten
  | gap :: gaps, part :: parts => gap ++ part ++ interleave gaps parts

theorem interleave_concat {α : Type} {gaps parts : List (List α)} (gap part : List α)
    (h : gaps.length = parts.length + 1) :
    interleave (gaps ++ [gap]) (parts ++ [part]) = interleave gaps parts ++ part ++ gap := by
  induction parts generalizing gaps with
  | nil =>
    obtain ⟨first, rfl⟩ := List.length_eq_one_iff.1 h
    simp [interleave]
  | cons next parts ih =>
    cases gaps with
    | nil => simp at h
    | cons first gaps =>
      have hlength : gaps.length = parts.length + 1 := by simpa using h
      simp [interleave, ih hlength]

section Prefixes

variable {left right rest content result : List Char} {span : Span} {n : Nat}

theorem cut?_append_right (h : cut? left n = some (result, right)) :
    cut? (left ++ rest) n = some (result, right ++ rest) := by
  obtain ⟨rfl, rfl⟩ := eq_of_cut? h
  rw [List.append_assoc, cut?_append]

theorem slice_append_right (h : slice left span = .ok content) :
    slice (left ++ rest) span = .ok content := by
  obtain ⟨before, behind, rfl, hstart, hstop⟩ := slice_eq_ok.1 h
  exact slice_eq_ok.2 ⟨before, behind ++ rest, by simp, hstart, hstop⟩

theorem isBoundary_of_append (h : isBoundary (left ++ rest) n = true) (hle : n ≤ byteLength left) :
    isBoundary left n = true := by
  obtain ⟨before, middle, behind, htext, hn, hlength⟩ :=
    exists_between h (isBoundary_append left rest) hle
  have hleft : cut? (left ++ rest) (byteLength left) = some (before ++ middle, behind) :=
    cut?_eq_some.2 ⟨htext, hlength⟩
  rw [cut?_append, Option.some.injEq, Prod.mk.injEq] at hleft
  rw [hleft.1, hn]
  exact isBoundary_append before middle

theorem splice_eq (left middle right content : List Char) (hstart : span.start = byteLength left)
    (hstop : span.stop = byteLength (left ++ middle)) :
    splice (left ++ middle ++ right) span content = .ok (left ++ content ++ right) := by
  have hfirst : cut? (left ++ middle ++ right) span.start = some (left, middle ++ right) := by
    rw [hstart, List.append_assoc, cut?_append]
  have hlast : cut? (left ++ middle ++ right) span.stop = some (left ++ middle, right) := by
    rw [hstop, cut?_append]
  simp only [splice, hfirst, hlast]

theorem splice_append_right (h : splice left span content = .ok result) :
    splice (left ++ rest) span content = .ok (result ++ rest) := by
  unfold splice at h
  cases hstart : cut? left span.start with
  | none => simp [hstart] at h
  | some first =>
    cases hstop : cut? left span.stop with
    | none => simp [hstart, hstop] at h
    | some second =>
      simp only [hstart, hstop, Except.ok.injEq] at h
      rw [← h]
      simp [splice, cut?_append_right hstart, cut?_append_right hstop]

end Prefixes

namespace Edit

variable {text left right rest result : List Char} {edits kept skipped : List Edit} {e : Edit}
  {cursor : Nat}

abbrev inserted (e : Edit) : List Char :=
  e.content.getD []

/-- The pieces of a text from `cursor` on that lie between edits in ascending order. -/
def gaps (text : List Char) : (cursor : Nat) → List Edit → Except Fault (List (List Char))
  | cursor, [] => do
    return [← slice text (← Span.make cursor (byteLength text))]
  | cursor, e :: edits => do
    let gap ← slice text (← Span.make cursor e.span.start)
    return gap :: (← gaps text e.span.stop edits)

theorem applyAll_append_right (h : applyAll left edits = .ok result) :
    applyAll (left ++ rest) edits = .ok (result ++ rest) := by
  induction edits generalizing left with
  | nil =>
    have heq : left = result := Except.ok.inj h
    rw [applyAll, heq]
  | cons e edits ih =>
    rw [applyAll, bind_eq_ok] at h ⊢
    obtain ⟨next, hnext, happly⟩ := h
    exact ⟨next ++ rest, splice_append_right hnext, ih happly⟩

theorem gaps_concat {middle : List Char} {pieces : List (List Char)}
    (hstart : e.span.start = byteLength left) (hstop : e.span.stop = byteLength (left ++ middle))
    (h : gaps left cursor edits = .ok pieces) :
    gaps (left ++ middle ++ right) cursor (edits ++ [e]) = .ok (pieces ++ [right]) := by
  induction edits generalizing cursor pieces with
  | nil =>
    rw [gaps, bind_eq_ok] at h
    obtain ⟨span, hspan, h⟩ := h
    obtain ⟨piece, hpiece, h⟩ := bind_eq_ok.1 h
    have hlast : e.span.stop ≤ byteLength (left ++ middle ++ right) := by
      simp [hstop]
    have hright : slice (left ++ middle ++ right) ⟨_, _, hlast⟩ = .ok right :=
      slice_eq_ok.2 ⟨left ++ middle, [], by simp, hstop, rfl⟩
    have hcut : slice (left ++ middle ++ right) span = .ok piece := by
      rw [List.append_assoc]
      exact slice_append_right hpiece
    have heq : [piece] = pieces := Except.ok.inj h
    rw [← heq]
    simp only [List.nil_append, gaps, hstart, hspan, Span.make_of_le hlast, hcut, hright, bind,
      Except.bind, pure, Except.pure, List.singleton_append]
  | cons next edits ih =>
    rw [gaps, bind_eq_ok] at h
    obtain ⟨span, hspan, h⟩ := h
    obtain ⟨piece, hpiece, h⟩ := bind_eq_ok.1 h
    obtain ⟨later, hlater, h⟩ := bind_eq_ok.1 h
    have hcut : slice (left ++ middle ++ right) span = .ok piece := by
      rw [List.append_assoc]
      exact slice_append_right hpiece
    have heq : piece :: later = pieces := Except.ok.inj h
    rw [← heq]
    simp only [List.cons_append, gaps, hspan, hcut, ih hlater, bind, Except.bind, pure, Except.pure]

/-- What applying edits does to a text, for edits from its end to its start. -/
structure Spliced (text : List Char) (edits : List Edit) (result : List Char)
    (pieces removed : List (List Char)) : Prop where
  applied : applyAll text edits = .ok result
  between : gaps text 0 edits.reverse = .ok pieces
  covered : edits.reverse.map (fun e => slice text e.span) = removed.map .ok
  count : pieces.length = edits.length + 1
  text_eq : text = interleave pieces removed
  result_eq : result = interleave pieces (edits.reverse.map inserted)

theorem exists_spliced (hbounds : ∀ e ∈ edits, isBoundary text e.span.start = true ∧
      isBoundary text e.span.stop = true)
    (hdescending : edits.Pairwise fun a b => b.span.stop ≤ a.span.start) :
    ∃ result pieces removed, Spliced text edits result pieces removed := by
  -- the first edit is the last in the text, so the others only see what stands before it
  induction edits generalizing text with
  | nil =>
    have hslice : slice text ⟨0, byteLength text, Nat.zero_le _⟩ = .ok text :=
      slice_eq_ok.2 ⟨[], [], by simp, rfl, rfl⟩
    refine ⟨text, [text], [], rfl, ?_, rfl, rfl, by simp [interleave], by simp [interleave]⟩
    simp [gaps, Span.make_of_le (Nat.zero_le (byteLength text)), hslice, bind, Except.bind, pure,
      Except.pure]
  | cons e edits ih =>
    rw [List.pairwise_cons] at hdescending
    obtain ⟨hfirst, hlast⟩ := hbounds e List.mem_cons_self
    obtain ⟨left, middle, right, rfl, hstart, hstop⟩ := exists_between hfirst hlast e.span.ordered
    have hleft : ∀ d ∈ edits, isBoundary left d.span.start = true ∧
        isBoundary left d.span.stop = true := by
      intro d hd
      have hends := hbounds d (List.mem_cons_of_mem e hd)
      have hle := hdescending.1 d hd
      have hordered := d.span.ordered
      rw [List.append_assoc] at hends
      exact ⟨isBoundary_of_append hends.1 (by omega), isBoundary_of_append hends.2 (by omega)⟩
    obtain ⟨result, pieces, removed, h⟩ := ih hleft hdescending.2
    have hlength : removed.length = edits.length := by
      have hmap := congrArg List.length h.covered
      simpa using hmap.symm
    refine ⟨result ++ inserted e ++ right, pieces ++ [right], removed ++ [middle], ?_, ?_, ?_, ?_,
      ?_, ?_⟩
    · rw [applyAll, splice_eq left middle right _ hstart hstop, List.append_assoc,
        List.append_assoc]
      exact applyAll_append_right h.applied
    · rw [List.reverse_cons]
      exact gaps_concat hstart hstop h.between
    · have hold : ∀ d ∈ edits.reverse, slice (left ++ middle ++ right) d.span = slice left d.span := by
        intro d hd
        have hends := hleft d (List.mem_reverse.1 hd)
        obtain ⟨part, hpart⟩ := exists_slice hends.1 hends.2
        rw [hpart, List.append_assoc]
        exact slice_append_right hpart
      have hnew : slice (left ++ middle ++ right) e.span = .ok middle :=
        slice_eq_ok.2 ⟨left, right, rfl, hstart, hstop⟩
      rw [List.reverse_cons, List.map_append, List.map_append, List.map_congr_left hold, h.covered,
        List.map_singleton, List.map_singleton, hnew]
    · simp [h.count]
    · rw [interleave_concat right middle (by rw [h.count, hlength]), ← h.text_eq]
    · rw [List.reverse_cons, List.map_append, List.map_singleton,
        interleave_concat right (inserted e) (by simp [h.count]), ← h.result_eq]

section Settle

theorem mem_of_mem_settle_go (h : e ∈ (settle.go edits kept skipped).1) : e ∈ edits ∨ e ∈ kept := by
  fun_induction settle.go edits kept skipped with
  | case1 kept skipped => exact Or.inr (List.mem_reverse.1 h)
  | case2 d edits kept skipped hclash ih =>
    exact (ih h).imp_left (List.mem_cons_of_mem d)
  | case3 d edits kept skipped hclash ih =>
    cases ih h with
    | inl hlater => exact Or.inl (List.mem_cons_of_mem d hlater)
    | inr hkept =>
      cases List.mem_cons.1 hkept with
      | inl heq => exact Or.inl (heq ▸ List.mem_cons_self)
      | inr hold => exact Or.inr hold

theorem mem_of_mem_settle (h : e ∈ (settle edits).1) : e ∈ edits := by
  cases mem_of_mem_settle_go h with
  | inl hmem => exact hmem
  | inr hnone => simp at hnone

theorem mem_settle_go_of_kept (h : e ∈ kept) : e ∈ (settle.go edits kept skipped).1 := by
  fun_induction settle.go edits kept skipped with
  | case1 kept skipped => exact List.mem_reverse.2 h
  | case2 d edits kept skipped hclash ih => exact ih h
  | case3 d edits kept skipped hclash ih => exact ih (List.mem_cons_of_mem d h)

theorem settle_eq_nil_iff : (settle edits).1 = [] ↔ edits = [] := by
  cases edits with
  | nil => simp [settle, settle.go]
  | cons e edits =>
    have hfirst : e ∈ (settle.go edits [e] []).1 := mem_settle_go_of_kept List.mem_cons_self
    have heq : settle (e :: edits) = settle.go edits [e] [] := rfl
    simp [heq, List.ne_nil_of_mem hfirst]

theorem descending_settle_go (h : kept.Pairwise fun a b => a.span.stop ≤ b.span.start) :
    (settle.go edits kept skipped).1.Pairwise fun a b => b.span.stop ≤ a.span.start := by
  fun_induction settle.go edits kept skipped with
  | case1 kept skipped => exact List.pairwise_reverse.2 h
  | case2 d edits kept skipped hclash ih => exact ih h
  | case3 d edits kept skipped hclash ih =>
    refine ih (List.pairwise_cons.2 ⟨fun k hk => ?_, h⟩)
    have hfree : ∀ k ∈ kept, ¬ d.clashes k = true := by simpa using hclash
    simpa [clashes] using hfree k hk

theorem descending_settle (edits : List Edit) :
    (settle edits).1.Pairwise fun a b => b.span.stop ≤ a.span.start :=
  descending_settle_go List.Pairwise.nil

end Settle

/-- The edits that are kept can be applied, and that puts all their contents in at once. -/
theorem exists_spliced_settle {text : List Char} {edits : List Edit}
    (hbounds : ∀ e ∈ edits, isBoundary text e.span.start = true ∧
      isBoundary text e.span.stop = true) :
    ∃ result pieces removed, Spliced text (settle edits).1 result pieces removed :=
  exists_spliced (fun e he => hbounds e (mem_of_mem_settle he)) (descending_settle edits)

/-- Edits that touch, two insertions at one place, and an edit that clashes with both. -/
def crowdedEdits : List Edit :=
  [⟨⟨5, 7, by decide⟩, some "X".toList⟩, deletion ⟨3, 5, by decide⟩,
    ⟨Span.empty 3, some "P".toList⟩, ⟨Span.empty 3, some "Q".toList⟩,
    ⟨⟨1, 4, by decide⟩, some "Z".toList⟩, ⟨⟨0, 1, by decide⟩, some "W".toList⟩]

theorem crowded_edits_are_spliced :
    (∀ e ∈ crowdedEdits, isBoundary "aécdef".toList e.span.start = true ∧
      isBoundary "aécdef".toList e.span.stop = true) ∧
    ∃ pieces removed, Spliced "aécdef".toList (settle crowdedEdits).1 "WéQPX".toList pieces
      removed := by
  have hbounds : ∀ e ∈ crowdedEdits, isBoundary "aécdef".toList e.span.start = true ∧
      isBoundary "aécdef".toList e.span.stop = true := by decide
  have happlied : applyAll "aécdef".toList (settle crowdedEdits).1 = .ok "WéQPX".toList := by rfl
  obtain ⟨result, pieces, removed, h⟩ := exists_spliced_settle hbounds
  have heq : result = "WéQPX".toList := Except.ok.inj (h.applied.symm.trans happlied)
  rw [heq] at h
  exact ⟨hbounds, pieces, removed, h⟩

end Edit

end IfCollapse
