import IfCollapse.Lint.Rule
import IfCollapse.Proofs.Verdict

/-! What a safe replacement looks like: it has one statement, and an expression that must not be
repeated stands in it at most once. -/

namespace IfCollapse.Branch

open Java

section Replaced

variable {source : Source} {cst : Cst} {tree : Tree} {root place condition : Place} {id : Nat}
  {r : Replacement} {sites : List Site} {borrowed : List Place}

theorem Replaced.statements_ne_nil (h : Replaced tree id r place condition sites borrowed) :
    r.statements ≠ [] := by
  intro hnil
  rw [h.statements, List.map_eq_nil_iff] at hnil
  have hsited := h.sited
  rw [hnil] at hsited
  simp only [sitesOf, Except.ok.injEq] at hsited
  exact h.nonempty hsited.symm

end Replaced

end IfCollapse.Branch

namespace IfCollapse.Lint

open Java Branch

theorem applicability_eq_safe {comments : List Span} {span : Span} {r : Replacement} :
    applicability comments span r = .safe ↔
      repeatsCondition r = false ∧ reordersCondition r = false ∧ widensScope r = false ∧
        dropsComment comments span r = false := by
  unfold applicability
  split
  · rename_i h
    simp only [Bool.or_eq_true] at h
    simp only [reduceCtorEq, false_iff]
    rintro ⟨h₁, h₂, h₃, h₄⟩
    simp [h₁, h₂, h₃, h₄] at h
  · rename_i h
    simp only [Bool.or_eq_true, not_or, Bool.not_eq_true] at h
    exact ⟨fun _ => ⟨h.1.1.1, h.1.1.2, h.1.2, h.2⟩, fun _ => rfl⟩

section Safe

variable {tree : Tree} {place condition : Place} {id : Nat} {r : Replacement} {sites : List Site}
  {borrowed : List Place} {comments : List Span} {span : Span}

theorem single_of_safe (h : Replaced tree id r place condition sites borrowed)
    (hsafe : applicability comments span r = .safe) : ∃ s, r.statements = [s] := by
  have hfew := (applicability_eq_safe.1 hsafe).2.1
  simp only [reordersCondition, decide_eq_false_iff_not] at hfew
  have hpos := List.length_pos_of_ne_nil h.statements_ne_nil
  exact List.length_eq_one_iff.1 (by omega)

theorem firstCondition_eq (h : Replaced tree id r place condition sites borrowed) {c : Place}
    (hc : firstCondition? r = some c) : c = innerCondition condition := by
  rw [firstCondition?, Option.map_eq_some_iff] at hc
  obtain ⟨conditional, hhead, rfl⟩ := hc
  have hmem := List.mem_of_mem_head? hhead
  rw [h.statements, List.mem_flatMap] at hmem
  obtain ⟨s, hs, hin⟩ := hmem
  obtain ⟨t, _, rfl⟩ := List.mem_map.1 hs
  obtain ⟨site, _, rfl⟩ := List.mem_map.1 hin
  rfl

theorem count_le_one_of_safe (h : Replaced tree id r place condition sites borrowed)
    (hsafe : applicability comments span r = .safe)
    (heffect : isRepeatable (innerCondition condition).here = false) : r.count ≤ 1 := by
  have honce := (applicability_eq_safe.1 hsafe).1
  by_contra hmany
  cases hfirst : firstCondition? r with
  | none =>
    rw [firstCondition?, Option.map_eq_none_iff, List.head?_eq_none_iff] at hfirst
    rw [Replacement.count, hfirst, List.length_nil] at hmany
    omega
  | some c =>
    have hc := firstCondition_eq h hfirst
    simp only [repeatsCondition, hfirst, Option.any_some, hc, heffect, Bool.not_false,
      Bool.and_true, decide_eq_false_iff_not] at honce
    omega

end Safe

def isSafe (tree : Tree) (r : Replacement) : Bool :=
  match r.span with
  | .error _ => false
  | .ok span => applicability tree.comments span r == .safe

theorem isSafe_iff {tree : Tree} {r : Replacement} : isSafe tree r = true ↔
    ∃ span, r.span = .ok span ∧ applicability tree.comments span r = .safe := by
  unfold isSafe
  split
  · rename_i hspan
    simp [hspan]
  · rename_i span hspan
    simp [hspan]

end IfCollapse.Lint
