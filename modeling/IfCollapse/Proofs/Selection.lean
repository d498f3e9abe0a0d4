import IfCollapse.Proofs.Fixing
import IfCollapse.Proofs.Comments

/-! Which edits are applied to a file. The edits of the findings that may be fixed fall into two
groups: those that are kept do not overlap, and each of the others overlaps one that is kept and
starts where it does or further on. The counts that are reported are the sizes of these groups. -/

namespace IfCollapse

namespace Edit

variable {edits kept skipped : List Edit} {e : Edit}

theorem settle_go_perm (edits kept skipped : List Edit) :
    ((settle.go edits kept skipped).1 ++ (settle.go edits kept skipped).2).Perm
      (edits ++ (kept ++ skipped)) := by
  fun_induction settle.go edits kept skipped with
  | case1 kept skipped => exact (List.reverse_perm kept).append (List.reverse_perm skipped)
  | case2 e edits kept skipped hclash ih =>
    refine ih.trans ?_
    rw [← List.append_assoc, ← List.append_assoc]
    exact List.perm_middle
  | case3 e edits kept skipped hclash ih => exact ih.trans List.perm_middle

theorem settle_perm (edits : List Edit) : ((settle edits).1 ++ (settle edits).2).Perm edits := by
  simpa [settle] using settle_go_perm edits [] []

theorem exists_clash_of_skipped_go
    (hsorted : edits.Pairwise fun a b => b.span.start ≤ a.span.start)
    (hkept : ∀ k ∈ kept, ∀ d ∈ edits, d.span.start ≤ k.span.start)
    (h : e ∈ (settle.go edits kept skipped).2) :
    e ∈ skipped ∨
      ∃ k ∈ (settle.go edits kept skipped).1, e.clashes k = true ∧ e.span.start ≤ k.span.start := by
  fun_induction settle.go edits kept skipped with
  | case1 kept skipped => exact Or.inl (List.mem_reverse.1 h)
  | case2 d edits kept skipped hclash ih =>
    obtain ⟨_, hrest⟩ := List.pairwise_cons.1 hsorted
    have hlater : ∀ k ∈ kept, ∀ f ∈ edits, f.span.start ≤ k.span.start :=
      fun k hk f hf => hkept k hk f (List.mem_cons_of_mem d hf)
    cases ih hrest hlater h with
    | inr hfound => exact Or.inr hfound
    | inl hskipped =>
      cases List.mem_cons.1 hskipped with
      | inr hold => exact Or.inl hold
      | inl heq =>
        obtain ⟨k, hk, hcut⟩ := List.any_eq_true.1 hclash
        rw [heq]
        exact Or.inr ⟨k, mem_settle_go_of_kept hk, hcut, hkept k hk d List.mem_cons_self⟩
  | case3 d edits kept skipped hclash ih =>
    obtain ⟨hfirst, hrest⟩ := List.pairwise_cons.1 hsorted
    refine ih hrest ?_ h
    intro k hk f hf
    cases List.mem_cons.1 hk with
    | inl heq => exact heq ▸ hfirst f hf
    | inr hold => exact hkept k hold f (List.mem_cons_of_mem d hf)

theorem exists_clash_of_skipped
    (hsorted : edits.Pairwise fun a b => b.span.start ≤ a.span.start)
    (h : e ∈ (settle edits).2) :
    ∃ k ∈ (settle edits).1, e.clashes k = true ∧ e.span.start ≤ k.span.start :=
  (exists_clash_of_skipped_go hsorted (by simp) h).resolve_left (by simp)

end Edit

namespace Lint

def Report.SingleEdits (report : Report) : Prop :=
  ∀ f ∈ report.findings, ∀ fix, f.finding.fix = some fix →
    ∃ e, fix.edits = [e] ∧ e.span.start < e.span.stop

end Lint

namespace Command

open Lint

variable {fixing : List String} {level : Applicability} {findings : List RuleFinding}

def allowedEdits (fixing : List String) (level : Applicability) (f : RuleFinding) : List Edit :=
  match f.finding.fix with
  | some fix => if f.rule ∈ fixing ∧ fix.applies level = true then fix.edits else []
  | none => []

def amended (text : List Char) (kept : List Edit) : Except Fault (Option (List Char)) :=
  if kept.isEmpty then .ok none else (Edit.applyAll text kept).map some

theorem isAllowed_iff {f : RuleFinding} : isAllowed fixing level f = true ↔
    f.rule ∈ fixing ∧ ∃ fix, f.finding.fix = some fix ∧ fix.applies level = true := by
  rw [isAllowed, Bool.and_eq_true, List.contains_iff_mem, Option.any_eq_true]

theorem editsOf_perm (fixing : List String) (level : Applicability) (findings : List RuleFinding) :
    (editsOf (findings.filter (isAllowed fixing level))).Perm
      (findings.flatMap (allowedEdits fixing level)) := by
  have hflat : ((findings.filter (isAllowed fixing level)).flatMap fun f =>
      (f.finding.fix.map (·.edits)).getD []) = findings.flatMap (allowedEdits fixing level) := by
    induction findings with
    | nil => rfl
    | cons f findings ih =>
      rw [List.flatMap_cons, ← ih, List.filter_cons, allowedEdits]
      cases hfix : f.finding.fix with
      | none =>
        have hnot : ¬isAllowed fixing level f = true := by simp [isAllowed_iff, hfix]
        rw [if_neg hnot, List.nil_append]
      | some fix =>
        have hiff : isAllowed fixing level f = true ↔
            f.rule ∈ fixing ∧ fix.applies level = true := by
          simp [isAllowed_iff, hfix]
        by_cases hok : isAllowed fixing level f = true
        · simp [hok, hiff.1 hok, hfix]
        · simp [hok, mt hiff.2 hok]
  rw [editsOf, hflat]
  exact List.mergeSort_perm _ _

theorem editsOf_descending (findings : List RuleFinding) :
    (editsOf findings).Pairwise fun a b => b.span.start ≤ a.span.start := by
  have htrans : ∀ a b c : Edit, decide (b.span.start ≤ a.span.start) = true →
      decide (c.span.start ≤ b.span.start) = true →
      decide (c.span.start ≤ a.span.start) = true := by
    intro a b c hab hbc
    exact decide_eq_true (Nat.le_trans (of_decide_eq_true hbc) (of_decide_eq_true hab))
  have htotal : ∀ a b : Edit, (decide (b.span.start ≤ a.span.start) ||
      decide (a.span.start ≤ b.span.start)) = true := by
    intro a b
    simpa using Nat.le_total b.span.start a.span.start
  exact (List.pairwise_mergeSort htrans htotal _).imp of_decide_eq_true

theorem length_editsOf (hsingle : ∀ f ∈ findings, ∀ fix, f.finding.fix = some fix →
      ∃ e, fix.edits = [e] ∧ e.span.start < e.span.stop) :
    (editsOf (findings.filter (isAllowed fixing level))).length =
      (findings.filter (isAllowed fixing level)).length := by
  rw [editsOf, List.length_mergeSort, List.length_flatMap]
  have hone : ∀ f ∈ findings.filter (isAllowed fixing level),
      ((f.finding.fix.map (·.edits)).getD []).length = 1 := by
    intro f hf
    obtain ⟨hmem, hallowed⟩ := List.mem_filter.1 hf
    obtain ⟨_, fix, hfix, _⟩ := isAllowed_iff.1 hallowed
    obtain ⟨e, he, _⟩ := hsingle f hmem fix hfix
    simp [hfix, he]
  rw [List.map_congr_left hone]
  simp

def settled (fixing : List String) (level : Applicability) (report : Report) :
    List Edit × List Edit :=
  Edit.settle (editsOf (report.findings.filter (isAllowed fixing level)))

theorem fixFile_eq {file : FileReport} (h : file.report.SingleEdits) :
    fixFile fixing level file =
      (amended file.source.text (settled fixing level file.report).1).map fun result =>
        ⟨(settled fixing level file.report).1.length,
          file.report.findings.length - (settled fixing level file.report).1.length,
          (settled fixing level file.report).2, result⟩ := by
  have hlength : (editsOf (file.report.findings.filter (isAllowed fixing level))).length = _ :=
    length_editsOf h
  have hle := List.length_filter_le (isAllowed fixing level) file.report.findings
  have hperm := (Edit.settle_perm (editsOf
    (file.report.findings.filter (isAllowed fixing level)))).length_eq
  rw [List.length_append, hlength] at hperm
  unfold fixFile settled
  dsimp only
  split
  · rename_i hnone
    have hedits := List.isEmpty_iff.1 hnone
    rw [hedits, List.length_nil] at hlength
    simp [amended, hedits, ← hlength, Edit.settle, Edit.settle.go, Except.map, pure, Except.pure]
  · rename_i hsome
    have hkept : (Edit.settle (editsOf
        (file.report.findings.filter (isAllowed fixing level)))).1.isEmpty = false := by
      rw [List.isEmpty_eq_false_iff]
      intro hnil
      exact hsome (List.isEmpty_iff.2 (Edit.settle_eq_nil_iff.1 hnil))
    rw [amended, hkept, if_neg Bool.false_ne_true, Nat.min_eq_left (by omega)]
    cases Edit.applyAll file.source.text (Edit.settle (editsOf
        (file.report.findings.filter (isAllowed fixing level)))).1 with
    | error why => rfl
    | ok result =>
      simp only [bind, Except.bind, pure, Except.pure, Except.map, Except.ok.injEq,
        FileFix.mk.injEq, true_and, and_true]
      omega

/-- A choice among edits: those that are kept do not overlap, and each of the others overlaps one
that is kept and starts where it does or further on. -/
structure Selects (edits kept left : List Edit) : Prop where
  all : (kept ++ left).Perm edits
  apart : kept.Pairwise fun a b => ¬a.span.Overlaps b.span
  covered : ∀ e ∈ left, ∃ k ∈ kept, e.span.Overlaps k.span ∧ e.span.start ≤ k.span.start

theorem selects_settle {edits allowed : List Edit} (hperm : edits.Perm allowed)
    (hsorted : edits.Pairwise fun a b => b.span.start ≤ a.span.start)
    (hproper : ∀ e ∈ allowed, e.span.start < e.span.stop) :
    Selects allowed (Edit.settle edits).1 (Edit.settle edits).2 where
  all := (Edit.settle_perm edits).trans hperm
  apart := (Edit.descending_settle edits).imp fun hle => Span.not_overlaps_iff.2 (Or.inl hle)
  covered := by
    intro e he
    obtain ⟨k, hk, hclash, hstart⟩ := Edit.exists_clash_of_skipped hsorted he
    have hlater : k.span.start < e.span.stop := of_decide_eq_true hclash
    have hproperk := hproper k (hperm.subset (Edit.mem_of_mem_settle hk))
    exact ⟨k, hk, ⟨by omega, hlater⟩, hstart⟩

theorem proper_of_mem_allowedEdits {report : Report} {e : Edit} (h : report.SingleEdits)
    (he : e ∈ report.findings.flatMap (allowedEdits fixing level)) :
    e.span.start < e.span.stop := by
  obtain ⟨f, hf, he⟩ := List.mem_flatMap.1 he
  unfold allowedEdits at he
  split at he
  · rename_i fix hfix
    obtain ⟨d, hd, hproper⟩ := h f hf fix hfix
    split at he
    · rw [hd, List.mem_singleton] at he
      rwa [he]
    · simp at he
  · simp at he

theorem exists_amended {text : List Char} {kept : List Edit}
    (hfit : ∀ e ∈ kept, isBoundary text e.span.start = true ∧ isBoundary text e.span.stop = true)
    (hdescending : kept.Pairwise fun a b => b.span.stop ≤ a.span.start) :
    ∃ result, amended text kept = .ok result ∧ (result.isSome = true ↔ kept ≠ []) := by
  unfold amended
  split
  · rename_i hnone
    exact ⟨none, rfl, by simpa using hnone⟩
  · rename_i hsome
    obtain ⟨result, _, _, hspliced⟩ := Edit.exists_spliced hfit hdescending
    refine ⟨some result, by rw [hspliced.applied]; rfl, ?_⟩
    simpa using hsome

/-- Of the edits that are allowed, fixing a file applies a choice that cannot be extended and
reports its size; all other findings are left. Unless an edit does not fit the text, there is a
result, and the text is written anew exactly if an edit is kept. -/
theorem fixFile_selects {file : FileReport} (h : file.report.SingleEdits) (fixing : List String)
    (level : Applicability) :
    ∃ kept left, Selects (file.report.findings.flatMap (allowedEdits fixing level)) kept left ∧
      kept.length ≤ file.report.findings.length ∧
      fixFile fixing level file = (amended file.source.text kept).map (fun result =>
        ⟨kept.length, file.report.findings.length - kept.length, left, result⟩) ∧
      ((∀ e ∈ file.report.findings.flatMap (allowedEdits fixing level),
          isBoundary file.source.text e.span.start = true ∧
            isBoundary file.source.text e.span.stop = true) →
        ∃ fix, fixFile fixing level file = .ok fix ∧ fix.fixed = kept.length ∧
          fix.fixed + fix.left = file.report.findings.length ∧
          (fix.result.isSome = true ↔ kept ≠ [])) := by
  have hperm := editsOf_perm fixing level file.report.findings
  have hselects : Selects _ (settled fixing level file.report).1
      (settled fixing level file.report).2 :=
    selects_settle hperm (editsOf_descending _) fun e he => proper_of_mem_allowedEdits h he
  have hlength : (settled fixing level file.report).1.length ≤ file.report.findings.length := by
    have hall := hselects.all.length_eq
    rw [← hperm.length_eq, length_editsOf h, List.length_append] at hall
    have hle := List.length_filter_le (isAllowed fixing level) file.report.findings
    omega
  refine ⟨_, _, hselects, hlength, fixFile_eq h, ?_⟩
  intro hfit
  obtain ⟨result, hresult, hsome⟩ := exists_amended (fun e he =>
    hfit e (hselects.all.subset (List.mem_append_left _ he))) (Edit.descending_settle _)
  refine ⟨⟨_, _, (settled fixing level file.report).2, result⟩, ?_, rfl,
    Nat.add_sub_cancel' hlength, hsome⟩
  rw [fixFile_eq h, hresult]
  rfl

def fixedBy (rule : String) (edit : Edit) (level : Applicability) : RuleFinding :=
  ⟨rule, ⟨1, .simple, edit.span, some (.ofEdit edit level)⟩⟩

def outerEdit : Edit := ⟨⟨0, 8, by decide⟩, some ['P']⟩
def innerEdit : Edit := ⟨⟨2, 6, by decide⟩, some ['Q']⟩
def equalEdit : Edit := ⟨⟨2, 6, by decide⟩, some ['R']⟩
def crossingEdit : Edit := ⟨⟨1, 3, by decide⟩, some ['S']⟩
def laterEdit : Edit := ⟨⟨5, 9, by decide⟩, some ['T']⟩

/-- Nested, equal and crossing edits; the last three findings may not be fixed. -/
def crowdedFile : FileReport where
  path := "A.java"
  source := .ofText "abcdefghij".toList
  report := ⟨[fixedBy "IfToTernary" innerEdit .safe, fixedBy "IfToTernary" equalEdit .safe,
    fixedBy "IfToTernary" crossingEdit .safe, fixedBy "IfToTernary" outerEdit .safe,
    fixedBy "IfToTernary" laterEdit .risky, fixedBy "Other" laterEdit .safe,
    ⟨"IfToTernary", ⟨1, .simple, Span.empty 0, none⟩⟩], false, []⟩

theorem crowded_file_is_settled : crowdedFile.report.SingleEdits ∧ ∃ kept left fix,
    Selects [innerEdit, equalEdit, crossingEdit, outerEdit] kept left ∧
    (amended "abcdefghij".toList kept).map (fun result =>
      (⟨kept.length, 7 - kept.length, left, result⟩ : FileFix)) = .ok fix ∧
    fixFile ["IfToTernary"] .safe crowdedFile = .ok fix ∧ fix.fixed = kept.length ∧
    fix.fixed = 1 ∧ fix.left = 6 ∧ fix.result = some "abQghij".toList := by
  have hsingle : crowdedFile.report.SingleEdits := by
    intro f hf fix hfix
    simp only [crowdedFile, List.mem_cons, List.not_mem_nil, or_false] at hf
    rcases hf with rfl | rfl | rfl | rfl | rfl | rfl | rfl <;> cases hfix <;>
      exact ⟨_, rfl, by decide⟩
  have hedits : editsOf (crowdedFile.report.findings.filter (isAllowed ["IfToTernary"] .safe)) =
      [innerEdit, equalEdit, crossingEdit, outerEdit] :=
    List.mergeSort_of_pairwise (by decide)
  have hfile : fixFile ["IfToTernary"] .safe crowdedFile =
      .ok ⟨1, 6, [equalEdit, crossingEdit, outerEdit], some "abQghij".toList⟩ := by
    rw [fixFile_eq hsingle, settled, hedits]
    rfl
  obtain ⟨kept, left, hselects, _, heq, hfits⟩ := fixFile_selects hsingle ["IfToTernary"] .safe
  obtain ⟨fix, hfix, hfixed, _⟩ := hfits (by decide)
  obtain rfl := Except.ok.inj (hfile.symm.trans hfix)
  exact ⟨hsingle, kept, left, _, hselects, heq.symm.trans hfix, hfix, hfixed, rfl, rfl, rfl⟩

end Command

end IfCollapse
