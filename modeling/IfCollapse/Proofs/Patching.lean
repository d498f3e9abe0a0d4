import IfCollapse.Patch

/-! Patches are correct. The hunks of a patch divide the old lines and the new lines in the same way:
what stands between them is the same on both sides, and each hunk holds the lines that its numbers
say. So applying the hunks to the old lines gives the new lines. -/

namespace IfCollapse

namespace Hunk

def oldPart (h : Hunk) : Nat × List Line :=
  (h.oldStart, h.old)

def newPart (h : Hunk) : Nat × List Line :=
  (h.newStart, h.new)

theorem old_push (h : Hunk) (lines : List (Mark × Line)) :
    (h.push lines).old = h.old ++ Hunk.old ⟨0, 0, lines⟩ := by
  simp [old, push]

theorem new_push (h : Hunk) (lines : List (Mark × Line)) :
    (h.push lines).new = h.new ++ Hunk.new ⟨0, 0, lines⟩ := by
  simp [new, push]

theorem old_context (lines : List Line) :
    Hunk.old ⟨0, 0, lines.map (Mark.context, ·)⟩ = lines := by
  simp [old, List.filter_map, Function.comp_def]

theorem new_context (lines : List Line) :
    Hunk.new ⟨0, 0, lines.map (Mark.context, ·)⟩ = lines := by
  simp [new, List.filter_map, Function.comp_def]

end Hunk

namespace Patch

variable {i j : Nat} {line : Line} {lines old new : List Line}
  {gaps : List (List Line)} {parts : List (Nat × List Line)} {hunks : List Hunk} {h : Hunk}

theorem Step.old_lines (step : Step) (a b : Nat) : Hunk.old ⟨a, b, step.lines⟩ = step.old := by
  cases step <;> rfl

theorem Step.new_lines (step : Step) (a b : Nat) : Hunk.new ⟨a, b, step.lines⟩ = step.new := by
  cases step <;> rfl

/-- The lines outside of ranges, each given by the number of its first line and its length; the first
of `lines` has the number `number`. -/
def outside (number : Nat) (lines : List Line) : List (Nat × Nat) → List (List Line)
  | [] => [lines]
  | (start, count) :: ranges =>
    lines.take (start - number) ::
      outside (start + count) (lines.drop (start - number + count)) ranges

/-- Applies hunks to lines of which the first has the number `number`. The old lines of a hunk have to
stand where it says; its new lines take their place. -/
def apply (number : Nat) (lines : List Line) : List Hunk → Option (List Line)
  | [] => some lines
  | h :: hunks =>
    let before := h.oldStart - number
    if number ≤ h.oldStart ∧ h.old.isPrefixOf (lines.drop before) then
      (apply (h.oldStart + h.old.length) (lines.drop (before + h.old.length)) hunks).map fun more =>
        lines.take before ++ h.new ++ more
    else none

/-- Lines divided into gaps and parts by turns, if `i` lines came before. Each part has the number of
its first line. -/
def Divides : (i : Nat) → (lines : List Line) → (gaps : List (List Line)) →
    (parts : List (Nat × List Line)) → Prop
  | _, _, [], _ => False
  | _, lines, gap :: gaps, [] => lines = gap ∧ gaps = []
  | i, lines, gap :: gaps, part :: parts =>
    part.1 = i + gap.length + 1 ∧ ∃ rest, lines = gap ++ part.2 ++ rest ∧
      Divides (i + gap.length + part.2.length) rest gaps parts

def Leads (i j : Nat) (old new : List Line) (hunks : List Hunk) : Prop :=
  ∃ gaps, Divides i old gaps (hunks.map Hunk.oldPart) ∧ Divides j new gaps (hunks.map Hunk.newPart)

section Divided

theorem Divides.cons_line {gap : List Line} (h : Divides (i + 1) lines (gap :: gaps) parts) :
    Divides i (line :: lines) ((line :: gap) :: gaps) parts := by
  cases parts with
  | nil => exact ⟨by rw [h.1], h.2⟩
  | cons part parts =>
    obtain ⟨hstart, rest, hlines, hrest⟩ := h
    have hcount : i + (line :: gap).length = i + 1 + gap.length := by
      rw [List.length_cons]
      omega
    refine ⟨by rw [hstart, hcount], rest, by simp [hlines], ?_⟩
    rwa [hcount]

theorem Divides.lt_start (h : Divides i lines gaps parts) : ∀ part ∈ parts, i < part.1 := by
  induction parts generalizing i lines gaps with
  | nil => simp
  | cons first parts ih =>
    cases gaps with
    | nil => exact h.elim
    | cons gap gaps =>
      obtain ⟨hstart, rest, _, hrest⟩ := h
      intro part hpart
      cases List.mem_cons.1 hpart with
      | inl heq =>
        rw [heq]
        omega
      | inr hmem =>
        have hlt := ih hrest part hmem
        omega

theorem Divides.ascending (h : Divides i lines gaps parts) :
    parts.Pairwise fun a b => a.1 + a.2.length ≤ b.1 := by
  induction parts generalizing i lines gaps with
  | nil => exact List.Pairwise.nil
  | cons first parts ih =>
    cases gaps with
    | nil => exact h.elim
    | cons gap gaps =>
      obtain ⟨hstart, rest, _, hrest⟩ := h
      refine List.pairwise_cons.2 ⟨fun part hpart => ?_, ih hrest⟩
      have hlt := hrest.lt_start part hpart
      omega

theorem Divides.lines_eq (h : Divides i lines gaps parts) :
    ∀ part ∈ parts, (lines.drop (part.1 - (i + 1))).take part.2.length = part.2 := by
  induction parts generalizing i lines gaps with
  | nil => simp
  | cons first parts ih =>
    cases gaps with
    | nil => exact h.elim
    | cons gap gaps =>
      obtain ⟨hstart, rest, rfl, hrest⟩ := h
      intro part hpart
      cases List.mem_cons.1 hpart with
      | inl heq =>
        have hdrop : first.1 - (i + 1) = gap.length := by omega
        rw [heq, hdrop]
        simp
      | inr hmem =>
        have hlt := hrest.lt_start part hmem
        have hdrop : part.1 - (i + 1) =
            (gap ++ first.2).length + (part.1 - (i + gap.length + first.2.length + 1)) := by
          rw [List.length_append]
          omega
        rw [hdrop, List.drop_append, List.drop_eq_nil_of_le (by omega), List.nil_append,
          Nat.add_sub_cancel_left]
        exact ih hrest part hmem

theorem Divides.outside_eq (h : Divides i lines gaps parts) :
    outside (i + 1) lines (parts.map fun part => (part.1, part.2.length)) = gaps := by
  induction parts generalizing i lines gaps with
  | nil =>
    cases gaps with
    | nil => exact h.elim
    | cons gap gaps => simp [outside, h.1, h.2]
  | cons first parts ih =>
    cases gaps with
    | nil => exact h.elim
    | cons gap gaps =>
      obtain ⟨hstart, rest, rfl, hrest⟩ := h
      have hdrop : first.1 - (i + 1) = gap.length := by omega
      have hnext : first.1 + first.2.length = i + gap.length + first.2.length + 1 := by omega
      have hrestlines : (gap ++ first.2 ++ rest).drop (gap.length + first.2.length) = rest := by
        rw [← List.length_append, List.drop_left]
      rw [List.map_cons, outside, hdrop, hnext, hrestlines, ih hrest]
      simp

end Divided

section Applied

theorem apply_of_divides (hold : Divides i old gaps (hunks.map Hunk.oldPart))
    (hnew : Divides j new gaps (hunks.map Hunk.newPart)) : apply (i + 1) old hunks = some new := by
  induction hunks generalizing i j old new gaps with
  | nil =>
    cases gaps with
    | nil => exact hold.elim
    | cons gap gaps => rw [apply, hold.1, hnew.1]
  | cons h hunks ih =>
    cases gaps with
    | nil => exact hold.elim
    | cons gap gaps =>
      obtain ⟨hstart, oldRest, rfl, holdRest⟩ := hold
      obtain ⟨_, newRest, rfl, hnewRest⟩ := hnew
      change h.oldStart = i + gap.length + 1 at hstart
      have hbefore : h.oldStart - (i + 1) = gap.length := by omega
      have hnext : h.oldStart + h.old.length = i + gap.length + h.old.length + 1 := by omega
      have hprefix : h.old.isPrefixOf ((gap ++ h.old ++ oldRest).drop gap.length) = true := by
        rw [List.append_assoc, List.drop_left, List.isPrefixOf_iff_prefix]
        exact List.prefix_append h.old oldRest
      have hbehind : (gap ++ h.old ++ oldRest).drop (gap.length + h.old.length) = oldRest := by
        rw [← List.length_append, List.drop_left]
      have hmore := ih holdRest hnewRest
      change apply (i + gap.length + h.old.length + 1) oldRest hunks = some newRest at hmore
      change apply (i + 1) (gap ++ h.old ++ oldRest) (h :: hunks) = some (gap ++ h.new ++ newRest)
      rw [apply]
      simp only [hbefore]
      rw [if_pos ⟨by omega, hprefix⟩, hnext, hbehind, hmore]
      simp

end Applied

section Gathered

theorem leads_nil (i j : Nat) (lines : List Line) : Leads i j lines lines [] :=
  ⟨[lines], ⟨rfl, rfl⟩, ⟨rfl, rfl⟩⟩

theorem Leads.cons_line (h : Leads (i + 1) (j + 1) old new hunks) :
    Leads i j (line :: old) (line :: new) hunks := by
  obtain ⟨gaps, hold, hnew⟩ := h
  cases gaps with
  | nil => exact hold.elim
  | cons gap gaps => exact ⟨(line :: gap) :: gaps, hold.cons_line, hnew.cons_line⟩

theorem Leads.cons_hunk (hold : h.oldStart = i + 1) (hnew : h.newStart = j + 1)
    (hrest : Leads (i + h.old.length) (j + h.new.length) old new hunks) :
    Leads i j (h.old ++ old) (h.new ++ new) (h :: hunks) := by
  obtain ⟨gaps, holdRest, hnewRest⟩ := hrest
  exact ⟨[] :: gaps, ⟨hold, old, rfl, holdRest⟩, ⟨hnew, new, rfl, hnewRest⟩⟩

theorem leads_push_context (rest : List Line) (hold : h.oldStart = i + 1)
    (hnew : h.newStart = j + 1) :
    Leads i j (h.old ++ rest) (h.new ++ rest)
      [h.push ((rest.take contextSize).map (Mark.context, ·))] := by
  have holdLines := h.old_push ((rest.take contextSize).map (Mark.context, ·))
  have hnewLines := h.new_push ((rest.take contextSize).map (Mark.context, ·))
  rw [Hunk.old_context] at holdLines
  rw [Hunk.new_context] at hnewLines
  have hleads := Leads.cons_hunk (h := h.push ((rest.take contextSize).map (Mark.context, ·)))
    hold hnew (leads_nil _ _ (rest.drop contextSize))
  rwa [holdLines, hnewLines, List.append_assoc, List.append_assoc, List.take_append_drop] at hleads

/-- Gathering steps gives hunks that lead from their old lines to their new lines. An open hunk covers
the lines right before them. -/
theorem leads_gather (rest : List Line) (steps : List Step) :
    (∀ i j, Leads i j (steps.flatMap Step.old ++ rest) (steps.flatMap Step.new ++ rest)
      (gather rest i j none steps)) ∧
    ∀ (h : Hunk) i j, h.oldStart = i + 1 → h.newStart = j + 1 →
      Leads i j (h.old ++ (steps.flatMap Step.old ++ rest))
        (h.new ++ (steps.flatMap Step.new ++ rest))
        (gather rest (i + h.old.length) (j + h.new.length) (some h) steps) := by
  induction steps with
  | nil => exact ⟨fun i j => leads_nil i j rest, fun h i j => leads_push_context rest⟩
  | cons step steps ih =>
    obtain ⟨ihnone, ihsome⟩ := ih
    -- a hunk with this step in it is either finished or stays open
    have hstep : ∀ (h : Hunk) i j, h.oldStart = i + 1 → h.newStart = j + 1 →
        Leads i j (h.old ++ (steps.flatMap Step.old ++ rest))
          (h.new ++ (steps.flatMap Step.new ++ rest))
          (if contextSize ≤ h.trailing then
            h :: gather rest (i + h.old.length) (j + h.new.length) none steps
          else gather rest (i + h.old.length) (j + h.new.length) (some h) steps) := by
      intro h i j hold hnew
      split
      · exact Leads.cons_hunk hold hnew (ihnone _ _)
      · exact ihsome h i j hold hnew
    constructor
    · intro i j
      cases hsame : step.isSame with
      | true =>
        cases step with
        | same line => exact Leads.cons_line (ihnone (i + 1) (j + 1))
        | replaced _ _ => simp [Step.isSame] at hsame
        | removed _ => simp [Step.isSame] at hsame
        | added _ => simp [Step.isSame] at hsame
      | false =>
        have hleads := hstep ⟨i + 1, j + 1, step.lines⟩ i j rfl rfl
        rw [step.old_lines, step.new_lines] at hleads
        simpa [gather, hsame] using hleads
    · intro h i j hold hnew
      have hleads := hstep (h.push step.lines) i j hold hnew
      rw [h.old_push, h.new_push, step.old_lines, step.new_lines] at hleads
      simpa [gather, Nat.add_assoc] using hleads

end Gathered

theorem take_commonLength (a b : List Line) :
    a.take (commonLength a b) = b.take (commonLength a b) := by
  fun_induction commonLength a b with
  | case1 a x b ih => simp [ih]
  | case2 x a y b hne => simp
  | case3 => simp

theorem leads_hunks (old new : List Line) : Leads 0 0 old new (Patch.hunks old new) := by
  let common := commonLength old.reverse new.reverse
  have hsuffix : old.drop (old.length - common) = new.drop (new.length - common) := by
    have htake := take_commonLength old.reverse new.reverse
    rwa [List.take_reverse, List.take_reverse, List.reverse_inj] at htake
  have hleads := (leads_gather (old.drop (old.length - common))
    (steps (old.take (old.length - common)) (new.take (new.length - common)))).1 0 0
  rw [steps_old, steps_new, List.take_append_drop] at hleads
  rw [hsuffix, List.take_append_drop] at hleads
  rw [← hsuffix] at hleads
  exact hleads

/-- A patch from one list of lines to another. The hunks are in order and apart, each holds the lines
that stand on both sides at its numbers, and all else is the same on both sides. -/
structure IsPatch (old new : List Line) (hunks : List Hunk) : Prop where
  ascending : hunks.Pairwise fun a b =>
    a.oldStart + a.old.length ≤ b.oldStart ∧ a.newStart + a.new.length ≤ b.newStart
  old_lines : ∀ h ∈ hunks, 0 < h.oldStart ∧
    (old.drop (h.oldStart - 1)).take h.old.length = h.old
  new_lines : ∀ h ∈ hunks, 0 < h.newStart ∧
    (new.drop (h.newStart - 1)).take h.new.length = h.new
  outside_eq : outside 1 old (hunks.map fun h => (h.oldStart, h.old.length)) =
    outside 1 new (hunks.map fun h => (h.newStart, h.new.length))
  applied : apply 1 old hunks = some new

theorem Leads.isPatch (h : Leads 0 0 old new hunks) : IsPatch old new hunks := by
  obtain ⟨gaps, hold, hnew⟩ := h
  have holdMem : ∀ h ∈ hunks, h.oldPart ∈ hunks.map Hunk.oldPart :=
    fun h hh => List.mem_map_of_mem hh
  have hnewMem : ∀ h ∈ hunks, h.newPart ∈ hunks.map Hunk.newPart :=
    fun h hh => List.mem_map_of_mem hh
  refine ⟨?_, ?_, ?_, ?_, apply_of_divides hold hnew⟩
  · exact (List.pairwise_map.1 hold.ascending).and (List.pairwise_map.1 hnew.ascending)
  · intro h hh
    exact ⟨hold.lt_start _ (holdMem h hh), hold.lines_eq _ (holdMem h hh)⟩
  · intro h hh
    exact ⟨hnew.lt_start _ (hnewMem h hh), hnew.lines_eq _ (hnewMem h hh)⟩
  · have holdOutside := hold.outside_eq
    have hnewOutside := hnew.outside_eq
    rw [List.map_map] at holdOutside hnewOutside
    exact holdOutside.trans hnewOutside.symm

/-- What is printed below the heading are the hunks of a patch from the old lines to the new, each
below the numbers and counts of its lines. -/
theorem render_isPatch (path : String) (original fixed : List Char) :
    ∃ hunks, Patch.render path original fixed =
        s!"--- a/{path}\n+++ b/{path}\n".toList ++ hunks.flatMap (fun h =>
          s!"@@ -{h.oldStart},{h.old.length} +{h.newStart},{h.new.length} @@\n".toList ++
            h.lines.flatMap fun (mark, line) => mark.sign :: line ++ ['\n']) ∧
      IsPatch (textLines original) (textLines fixed) hunks :=
  ⟨Patch.hunks (textLines original) (textLines fixed), rfl, (leads_hunks _ _).isPatch⟩

end Patch

end IfCollapse
