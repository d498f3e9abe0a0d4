import IfCollapse.Command.Run
import IfCollapse.Proofs.Faultless
import IfCollapse.Proofs.Overwriting
import IfCollapse.Proofs.Splicing

/-! What fixing does to files. All files are read before the first is written, so a file that cannot be
read leaves everything as it was; and a file that is collected more than once is written with the same
text each time. -/

namespace IfCollapse

def Finding.EditsFit (text : List Char) (f : Finding) : Prop :=
  ∀ fix, f.fix = some fix → ∀ e ∈ fix.edits,
    isBoundary text e.span.start = true ∧ isBoundary text e.span.stop = true

namespace Lint

open Java Branch Suppression

variable {source : Source} {options : Options} {c : Cursor} {remarks : Remarks} {f : Finding}
  {rule : Rule} {regions : List Region}

theorem edit_of_findingOf {comments : List Span} {keyword : Span} {r : Replacement}
    (h : findingOf source comments keyword r = .ok f) :
    ∃ span content level, r.span = .ok span ∧ f.fix = some (Fix.ofEdit ⟨span, some content⟩ level) := by
  obtain ⟨content, _, h⟩ := bind_eq_ok.1 h
  obtain ⟨span, hspan, h⟩ := bind_eq_ok.1 h
  obtain ⟨edit, hedit, h⟩ := bind_eq_ok.1 h
  have heq : (⟨span, some content⟩ : Edit) = edit := by
    unfold Edit.replacement at hedit
    split at hedit
    · simp at hedit
    · exact Except.ok.inj hedit
  refine ⟨span, content, applicability comments span r, hspan, ?_⟩
  rw [heq, ← Except.ok.inj h]

theorem replacement_of_checkIf (h : checkIf options source c = .ok remarks)
    (hf : f ∈ remarks.findings) :
    ∃ parent tree id r, Tree.ofCst source parent = .ok tree ∧
      evaluate tree id = .ok (.replace r) ∧
      findingOf source tree.comments (c.node.children.head?.getD c.node).span r = .ok f := by
  unfold checkIf at h
  cases hparent : c.parent? with
  | none =>
    simp only [hparent, Except.ok.injEq] at h
    simp [← h, Remarks.none] at hf
  | some parent =>
    simp only [hparent] at h
    split at h
    · rw [← Except.ok.inj h] at hf
      simp [Remarks.none] at hf
    · obtain ⟨tree, htree, h⟩ := bind_eq_ok.1 h
      split at h
      · rw [← Except.ok.inj h] at hf
        simp [Remarks.none] at hf
      · rename_i element helement
        split at h
        · rw [← Except.ok.inj h] at hf
          simp at hf
        · rename_i verdict hverdict
          split at h
          · rw [← Except.ok.inj h] at hf
            simp at hf
          · rename_i r hr
            obtain ⟨finding, hfinding, h⟩ := bind_eq_ok.1 h
            rw [← Except.ok.inj h, List.mem_singleton] at hf
            rw [eq_replace_of_filter hr] at hverdict
            rw [hf]
            exact ⟨parent, tree, element.id, r, htree, hverdict, hfinding⟩

theorem editsFit_of_checkIf (h : checkIf options source c = .ok remarks)
    (hf : f ∈ remarks.findings) : f.EditsFit source.text := by
  obtain ⟨parent, tree, id, r, htree, hverdict, hfinding⟩ := replacement_of_checkIf h hf
  obtain ⟨root, hl⟩ := lowered_of_ofCst htree
  obtain ⟨place, condition, sites, borrowed, hr⟩ := replaced_of_evaluate hverdict
  obtain ⟨span, content, level, hspan, hfix⟩ := edit_of_findingOf hfinding
  intro fix hsome e he
  rw [hfix, Option.some.injEq] at hsome
  rw [← hsome, Fix.ofEdit, List.mem_singleton] at he
  rw [he]
  exact hr.boundaries_span hl hspan

theorem findings_foldl_append (reports : List Report) (start : Report) :
    (reports.foldl Report.append start).findings =
      start.findings ++ reports.flatMap (·.findings) := by
  induction reports generalizing start with
  | nil => simp
  | cons report reports ih =>
    rw [List.foldl_cons, ih, List.flatMap_cons, Report.append, List.append_assoc]

theorem finding_of_visit {report : Report} {g : RuleFinding}
    (h : visit source regions c rule = .ok report) (hg : g ∈ report.findings) :
    ∃ remarks, rule.check source c = .ok remarks ∧ g.finding ∈ remarks.findings := by
  unfold visit at h
  split at h
  · rw [← Except.ok.inj h] at hg
    simp at hg
  · obtain ⟨remarks, hremarks, h⟩ := bind_eq_ok.1 h
    rw [← Except.ok.inj h, findings_foldl_append, List.nil_append, List.mem_flatMap] at hg
    obtain ⟨part, hpart, hg⟩ := hg
    obtain ⟨finding, hfinding, rfl⟩ := List.mem_map.1 hpart
    refine ⟨remarks, hremarks, ?_⟩
    unfold sieve at hg
    split at hg
    · simp at hg
    · rw [List.mem_singleton] at hg
      rwa [hg]

theorem exists_of_mem_mapM {α β : Type} {f : α → Except Fault β} {xs : List α} {ys : List β} {y : β}
    (h : xs.mapM f = .ok ys) (hy : y ∈ ys) : ∃ x ∈ xs, f x = .ok y := by
  have hmem : Except.ok y ∈ xs.map f := by
    rw [mapM_eq_ok.1 h]
    exact List.mem_map_of_mem hy
  exact List.mem_map.1 hmem

theorem exists_mapM_all {α β : Type} {f : α → Except Fault β} {P : β → Prop} {xs : List α}
    (h : ∀ x ∈ xs, ∃ y, f x = .ok y ∧ P y) : ∃ ys, xs.mapM f = .ok ys ∧ ∀ y ∈ ys, P y := by
  obtain ⟨ys, hys⟩ := exists_mapM fun x hx => (h x hx).imp fun y hy => hy.1
  refine ⟨ys, hys, fun y hy => ?_⟩
  obtain ⟨x, hx, heq⟩ := exists_of_mem_mapM hys hy
  obtain ⟨z, hz, hP⟩ := h x hx
  rw [heq] at hz
  rwa [Except.ok.inj hz]

def Report.EditsFit (text : List Char) (report : Report) : Prop :=
  ∀ f ∈ report.findings, f.finding.EditsFit text

theorem exists_fitting_visit {text : List Char} {name : String} {properties : Properties}
    (hcreate : Registry.builtin.create? name properties = some rule)
    (hc : c.All (·.ParsedFrom text)) (regions : List Region) :
    ∃ report, visit (.ofText text) regions c rule = .ok report ∧ report.EditsFit text := by
  have hrule : rule.check = checkIf (Options.ofProperties properties) := check_of_create? hcreate
  obtain ⟨report, hreport⟩ : ∃ report, visit (.ofText text) regions c rule = .ok report := by
    apply exists_visit
    rw [hrule]
    exact exists_checkIf _ hc
  refine ⟨report, hreport, fun f hf => ?_⟩
  obtain ⟨remarks, hremarks, hfinding⟩ := finding_of_visit hreport hf
  rw [hrule] at hremarks
  exact editsFit_of_checkIf hremarks hfinding

theorem exists_fitting_report {text : List Char} {root : Cst} {rules : List Rule}
    (hroot : root.ParsedFrom text)
    (hrules : ∀ rule ∈ rules, ∃ name properties,
      Registry.builtin.create? name properties = some rule)
    (filters : List Suppression.Filter) :
    ∃ report, lint (.ofText text) root rules filters = .ok report ∧ report.EditsFit text := by
  obtain ⟨regions, hregions⟩ := exists_suppressions hroot filters
  have hplace : ∀ c ∈ root.places, ∃ reports,
      rules.mapM (visit (.ofText text) regions c) = .ok reports ∧
        ∀ report ∈ reports, report.EditsFit text := by
    intro c hc
    apply exists_mapM_all
    intro rule hrule
    obtain ⟨name, properties, hcreate⟩ := hrules rule hrule
    exact exists_fitting_visit hcreate
      (all_of_mem_places (fun t ht u hu => ht.child hu) hroot c hc) regions
  obtain ⟨visits, hvisits, hfit⟩ := exists_mapM_all hplace
  refine ⟨_, bind_eq_ok.2 ⟨regions, hregions, bind_eq_ok.2 ⟨visits, hvisits, rfl⟩⟩, ?_⟩
  intro f hf
  rw [findings_foldl_append, List.nil_append, List.mem_flatMap] at hf
  obtain ⟨report, hreport, hf⟩ := hf
  obtain ⟨reports, hreports, hreport⟩ := List.mem_flatten.1 hreport
  exact hfit reports hreports report hreport f hf

end Lint

namespace Command

open Java

section File

variable {text : List Char} {file : FileReport}

def keptEdits (plan : Plan) (risky : Bool) (report : Lint.Report) : List Edit :=
  (Edit.settle (editsOf (report.findings.filter
    (isAllowed (fixingRules plan) (fixLevel plan risky))))).1

/-- What is written in place of a text: nothing without an edit, otherwise the text with all edits
applied. -/
inductive Amends (text : List Char) (kept : List Edit) : Option (List Char) → Prop
  | untouched : kept = [] → Amends text kept none
  | applied {result : List Char} : kept ≠ [] → Edit.applyAll text kept = .ok result →
      Amends text kept (some result)

theorem Amends.unique {kept : List Edit} {a b : Option (List Char)} (ha : Amends text kept a)
    (hb : Amends text kept b) : a = b := by
  cases ha with
  | untouched hnone =>
    cases hb with
    | untouched => rfl
    | applied hsome => exact absurd hnone hsome
  | applied hsome hresult =>
    cases hb with
    | untouched hnone => exact absurd hnone hsome
    | applied _ hother =>
      rw [hresult] at hother
      rw [Except.ok.inj hother]

theorem boundaries_of_mem_editsOf {findings : List Lint.RuleFinding} {e : Edit}
    (hfit : ∀ f ∈ findings, f.finding.EditsFit text) (he : e ∈ editsOf findings) :
    isBoundary text e.span.start = true ∧ isBoundary text e.span.stop = true := by
  rw [editsOf, List.mem_mergeSort, List.mem_flatMap] at he
  obtain ⟨f, hf, he⟩ := he
  cases hfix : f.finding.fix with
  | none => simp [hfix] at he
  | some fix =>
    rw [hfix] at he
    exact hfit f hf fix hfix e he

theorem exists_fixFile (hfit : file.report.EditsFit file.source.text) (plan : Plan) (risky : Bool) :
    ∃ fix, fixFile (fixingRules plan) (fixLevel plan risky) file = .ok fix ∧
      Amends file.source.text (keptEdits plan risky file.report) fix.result := by
  unfold fixFile
  dsimp only
  split
  · rename_i hnone
    have hedits := List.isEmpty_iff.1 hnone
    exact ⟨_, rfl, .untouched (Edit.settle_eq_nil_iff.2 hedits)⟩
  · rename_i hsome
    have hfits : ∀ e ∈ keptEdits plan risky file.report,
        isBoundary file.source.text e.span.start = true ∧
          isBoundary file.source.text e.span.stop = true := by
      intro e he
      exact boundaries_of_mem_editsOf (fun f hf => hfit f (List.mem_filter.1 hf).1)
        (Edit.mem_of_mem_settle he)
    obtain ⟨result, pieces, removed, hspliced⟩ :=
      Edit.exists_spliced hfits (Edit.descending_settle _)
    refine ⟨_, bind_eq_ok.2 ⟨result, hspliced.applied, rfl⟩, .applied ?_ hspliced.applied⟩
    intro hkept
    exact hsome (List.isEmpty_iff.2 (Edit.settle_eq_nil_iff.1 hkept))

end File

section Files

variable {trees : Trees} {files : Files} {rules : List Lint.Rule} {plan : Plan}
  {diffOnly risky : Bool} {reports : List FileReport}

structure Reports (trees : Trees) (files : Files) (rules : List Lint.Rule) (file : FileReport) :
    Prop where
  read : files.read file.path = .ok file.source.text
  linted : ∃ root, trees file.source.text = some root ∧
    Lint.lint (.ofText file.source.text) root rules [Suppression.Filter.default] = .ok file.report
  fits : file.report.EditsFit file.source.text

theorem exists_lintFile {path : String} {text : List Char} {root : Cst}
    (hrules : ∀ rule ∈ rules, ∃ name properties,
      Lint.Registry.builtin.create? name properties = some rule)
    (hread : files.read path = .ok text) (htree : trees text = some root)
    (hroot : root.ParsedFrom text) :
    ∃ said report, lintFile trees files rules path = .ok (said, some ⟨path, .ofText text, report⟩) ∧
      Reports trees files rules ⟨path, .ofText text, report⟩ := by
  obtain ⟨report, hreport, hfit⟩ :=
    Lint.exists_fitting_report hroot hrules [Suppression.Filter.default]
  simp only [lintFile, hread, htree, hreport]
  exact ⟨_, report, rfl, ⟨hread, ⟨root, htree, hreport⟩, hfit⟩⟩

theorem lintFiles_cases {paths : List String}
    (hrules : ∀ rule ∈ rules, ∃ name properties,
      Lint.Registry.builtin.create? name properties = some rule)
    (hparsed : ∀ path ∈ paths, ∀ text, files.read path = .ok text →
      ∃ root, trees text = some root ∧ root.ParsedFrom text) :
    (∃ said reports, lintFiles trees files rules paths = (said, .ok reports) ∧
      reports.map (·.path) = paths ∧ ∀ file ∈ reports, Reports trees files rules file) ∨
    ∃ said path why, path ∈ paths ∧ files.read path = .error why ∧
      lintFiles trees files rules paths = (said, .error (.unreadable path why)) := by
  induction paths with
  | nil => exact Or.inl ⟨[], [], rfl, rfl, by simp⟩
  | cons path paths ih =>
    rw [lintFiles]
    cases hread : files.read path with
    | error why =>
      have hfail : lintFile trees files rules path = .error (.unreadable path why) := by
        simp only [lintFile, hread]
      exact Or.inr ⟨[], path, why, List.mem_cons_self, hread, by rw [hfail]⟩
    | ok text =>
      obtain ⟨root, htree, hroot⟩ := hparsed path List.mem_cons_self text hread
      obtain ⟨said, report, hfile, hreports⟩ := exists_lintFile hrules hread htree hroot
      rw [hfile]
      cases ih fun q hq => hparsed q (List.mem_cons_of_mem path hq) with
      | inl hrest =>
        obtain ⟨more, reports, hmore, hpaths, hall⟩ := hrest
        refine Or.inl ⟨said ++ more, ⟨path, .ofText text, report⟩ :: reports, ?_, ?_, ?_⟩
        · rw [hmore]
          rfl
        · rw [List.map_cons, hpaths]
        · exact List.forall_mem_cons.2 ⟨hreports, hall⟩
      | inr hrest =>
        obtain ⟨more, q, why, hq, hwhy, hmore⟩ := hrest
        refine Or.inr ⟨said ++ more, q, why, List.mem_cons_of_mem path hq, hwhy, ?_⟩
        rw [hmore]
        rfl

theorem writes_fixOutcome (diffOnly : Bool) (file : FileReport) (fix : FileFix) :
    (fixOutcome diffOnly file fix).writes =
      if diffOnly then [] else (fix.result.map fun text => (file.path, text)).toList := by
  unfold fixOutcome
  cases fix.result with
  | none => simp
  | some text => cases diffOnly <;> rfl

theorem mem_writes_iff {fixing : List String} {level : Applicability} {fixes : List FileFix}
    {w : String × List Char} (h : reports.map (fixFile fixing level) = fixes.map .ok) :
    w ∈ (List.zipWith (fixOutcome diffOnly) reports fixes).flatMap (·.writes) ↔
      diffOnly = false ∧ ∃ file ∈ reports, ∃ fix, fixFile fixing level file = .ok fix ∧
        w.1 = file.path ∧ fix.result = some w.2 := by
  induction reports generalizing fixes with
  | nil => simp
  | cons file reports ih =>
    cases fixes with
    | nil => simp at h
    | cons fix fixes =>
      rw [List.map_cons, List.map_cons, List.cons.injEq] at h
      have hwrite : w ∈ (fixOutcome diffOnly file fix).writes ↔
          diffOnly = false ∧ w.1 = file.path ∧ fix.result = some w.2 := by
        rw [writes_fixOutcome]
        obtain ⟨path, text⟩ := w
        cases diffOnly with
        | true => simp
        | false =>
          simp only [Bool.false_eq_true, if_false, Option.mem_toList, Option.map_eq_some_iff,
            Prod.mk.injEq, true_and]
          constructor
          · rintro ⟨a, ha, hpath, rfl⟩
            exact ⟨hpath.symm, ha⟩
          · rintro ⟨hpath, htext⟩
            exact ⟨text, htext, hpath.symm, rfl⟩
      rw [List.zipWith_cons_cons, List.flatMap_cons, List.mem_append, hwrite, ih h.2]
      simp only [List.mem_cons, exists_eq_or_imp, h.1, Except.ok.injEq, exists_eq_left', and_or_left]

theorem exists_fixReports (h : ∀ file ∈ reports, Reports trees files rules file) (plan : Plan)
    (diffOnly risky : Bool) :
    ∃ outcome, fixReports plan diffOnly risky reports = .ok outcome ∧ outcome.exit = 0 ∧
      ∀ w, w ∈ outcome.writes ↔ diffOnly = false ∧ ∃ file ∈ reports, w.1 = file.path ∧
        Amends file.source.text (keptEdits plan risky file.report) (some w.2) := by
  have hfix : ∀ file ∈ reports, ∃ fix,
      fixFile (fixingRules plan) (fixLevel plan risky) file = .ok fix ∧
        Amends file.source.text (keptEdits plan risky file.report) fix.result :=
    fun file hfile => exists_fixFile (h file hfile).fits plan risky
  obtain ⟨fixes, hfixes⟩ := exists_mapM fun file hfile => (hfix file hfile).imp fun _ hf => hf.1
  refine ⟨_, bind_eq_ok.2 ⟨fixes, hfixes, rfl⟩, rfl, fun w => ?_⟩
  rw [mem_writes_iff (mapM_eq_ok.1 hfixes)]
  refine and_congr_right fun _ => exists_congr fun file => and_congr_right fun hfile => ?_
  obtain ⟨fix, hok, hamends⟩ := hfix file hfile
  constructor
  · rintro ⟨other, hother, hpath, hresult⟩
    rw [hok] at hother
    rw [← Except.ok.inj hother] at hresult
    exact ⟨hpath, hresult ▸ hamends⟩
  · rintro ⟨hpath, happlied⟩
    exact ⟨fix, hok, hpath, hamends.unique happlied⟩

theorem read_files {outcome : Outcome} (hreports : ∀ file ∈ reports, Reports trees files rules file)
    (hwrites : ∀ w, w ∈ outcome.writes ↔ ∃ file ∈ reports, w.1 = file.path ∧
      Amends file.source.text (keptEdits plan risky file.report) (some w.2)) (path : String) :
    (∃ file ∈ reports, files.resolve? path = files.resolve? file.path ∧ ∃ result,
      Amends file.source.text (keptEdits plan risky file.report) (some result) ∧
      (outcome.files files).read path = .ok result) ∨
    (outcome.files files).read path = files.read path ∧ ∀ file ∈ reports,
      files.resolve? path = files.resolve? file.path → keptEdits plan risky file.report = [] := by
  have hreadable : ∀ w ∈ outcome.writes, ∃ old, files.read w.1 = .ok old := by
    intro w hw
    obtain ⟨file, hfile, hpath, _⟩ := (hwrites w).1 hw
    rw [hpath]
    exact ⟨_, (hreports file hfile).read⟩
  cases Files.read_writes hreadable path with
  | inl hwritten =>
    obtain ⟨w, hw, hplace, hafter⟩ := hwritten
    obtain ⟨file, hfile, hpath, hamends⟩ := (hwrites w).1 hw
    rw [hpath] at hplace
    exact Or.inl ⟨file, hfile, hplace, w.2, hamends, hafter⟩
  | inr hkept =>
    refine Or.inr ⟨hkept.2, fun file hfile hplace => ?_⟩
    obtain ⟨fix, _, hamends⟩ := exists_fixFile (hreports file hfile).fits plan risky
    generalize fix.result = result at hamends
    cases hamends with
    | untouched hnone => exact hnone
    | applied hsome hresult =>
      have hw : (file.path, _) ∈ outcome.writes :=
        (hwrites _).2 ⟨file, hfile, rfl, .applied hsome hresult⟩
      exact (hkept.1 _ hw hplace).elim

end Files

section Run

variable {trees : Trees} {files : Files} {directory : String} {args : Arguments} {session : Session}
  {opening : List Utterance} {diffOnly risky : Bool}

theorem create?_of_openSession {config : Option String}
    (h : openSession files directory config = .ok (session, opening)) :
    ∀ rule ∈ session.rules, ∃ name properties,
      Lint.Registry.builtin.create? name properties = some rule := by
  obtain ⟨plan, _, h⟩ := bind_eq_ok.1 h
  have hrules : plan.rulesFrom Lint.Registry.builtin = session.rules :=
    congrArg (·.1.rules) (Except.ok.inj h)
  intro rule hrule
  rw [← hrules] at hrule
  obtain ⟨setting, _, hcreate⟩ := List.mem_filterMap.1 hrule
  exact ⟨setting.name, setting.properties, hcreate⟩

theorem run_fix (trees : Trees)
    (hsession : openSession files directory args.config = .ok (session, opening))
    (hrules : session.rules ≠ []) (haction : args.action = .fix diffOnly risky) :
    ∃ said, run trees files directory args = Outcome.after said
      (match (lintFiles trees files session.rules (files.sources args.paths)).2 with
      | .error why => why.outcome
      | .ok reports =>
        (fixReports session.plan diffOnly risky reports).toOption.getD ⟨[], [], faultCode⟩) := by
  have hsome : session.rules.isEmpty = false := by simpa using hrules
  simp only [run, hsession, hsome, haction, Bool.false_eq_true, if_false]
  exact ⟨_, rfl⟩

def Session.Keeps (session : Session) (trees : Trees) (risky : Bool) (text : List Char)
    (kept : List Edit) : Prop :=
  ∃ root report, trees text = some root ∧
    Lint.lint (.ofText text) root session.rules [Suppression.Filter.default] = .ok report ∧
    kept = keptEdits session.plan risky report

def Collects (files : Files) (paths : List String) (path : String) : Prop :=
  ∃ q ∈ files.sources paths, files.resolve? path = files.resolve? q

structure FixesFiles (trees : Trees) (files : Files) (session : Session) (paths : List String)
    (diffOnly risky : Bool) (outcome : Outcome) : Prop where
  /-- A file that cannot be read ends the run before anything is written. -/
  unreadable : (∃ path ∈ files.sources paths, ∀ text, files.read path ≠ .ok text) →
    outcome.exit = 1 ∧ outcome.files files = files ∧
      ∃ path ∈ files.sources paths, ∃ why, files.read path = .error why ∧
        .warn ("Error: Failed to read " ++ path) ∈ outcome.said
  /-- To show patches changes nothing. -/
  shown : diffOnly = true → outcome.files files = files
  succeeds : (∀ path ∈ files.sources paths, ∃ text, files.read path = .ok text) → outcome.exit = 0
  /-- Otherwise a path shows the edits that are kept, applied to what was there before the run, or it
  shows what it showed before. The second is so for a collected file only if no edit is kept. -/
  fixed : (∀ path ∈ files.sources paths, ∃ text, files.read path = .ok text) → diffOnly = false →
    ∀ path,
      (Collects files paths path ∧ ∃ text kept result, files.read path = .ok text ∧
        session.Keeps trees risky text kept ∧ kept ≠ [] ∧ Edit.applyAll text kept = .ok result ∧
        (outcome.files files).read path = .ok result) ∨
      (outcome.files files).read path = files.read path ∧ (Collects files paths path →
        ∃ text, files.read path = .ok text ∧ session.Keeps trees risky text [])

theorem fixesFiles_of_unreadable {paths : List String} {path : String} {why : ReadError}
    (hpath : path ∈ files.sources paths) (hread : files.read path = .error why)
    (said : List Utterance) :
    FixesFiles trees files session paths diffOnly risky
      ((Failure.unreadable path why).outcome.after said) := by
  have hnot : ¬ ∀ path ∈ files.sources paths, ∃ text, files.read path = .ok text := by
    intro hall
    obtain ⟨text, htext⟩ := hall path hpath
    rw [hread] at htext
    cases htext
  refine ⟨fun _ => ⟨rfl, rfl, path, hpath, why, hread, ?_⟩, fun _ => rfl, fun h => absurd h hnot,
    fun h => absurd h hnot⟩
  have hline : "Error: Failed to read " ++ path = "Error: " ++ ("Failed to read " ++ path) := by
    rw [← String.append_assoc]
    rfl
  rw [hline]
  exact List.mem_append_right said List.mem_cons_self

theorem fixesFiles_of_reports {paths : List String} {reports : List FileReport} {outcome : Outcome}
    (hpaths : reports.map (·.path) = files.sources paths)
    (hreports : ∀ file ∈ reports, Reports trees files session.rules file)
    (hexit : outcome.exit = 0)
    (hwrites : ∀ w, w ∈ outcome.writes ↔ diffOnly = false ∧ ∃ file ∈ reports, w.1 = file.path ∧
      Amends file.source.text (keptEdits session.plan risky file.report) (some w.2)) :
    FixesFiles trees files session paths diffOnly risky outcome := by
  have hkeeps : ∀ file ∈ reports,
      session.Keeps trees risky file.source.text (keptEdits session.plan risky file.report) := by
    intro file hfile
    obtain ⟨root, htree, hreport⟩ := (hreports file hfile).linted
    exact ⟨root, file.report, htree, hreport, rfl⟩
  refine ⟨?_, ?_, fun _ => hexit, ?_⟩
  · intro hunreadable
    obtain ⟨path, hpath, hnone⟩ := hunreadable
    rw [← hpaths] at hpath
    obtain ⟨file, hfile, rfl⟩ := List.mem_map.1 hpath
    exact absurd (hreports file hfile).read (hnone _)
  · intro hdiff
    have hnone : outcome.writes = [] := by
      apply List.eq_nil_iff_forall_not_mem.2
      intro w hw
      simpa [hdiff] using ((hwrites w).1 hw).1
    rw [Outcome.files, hnone, List.foldl_nil]
  · intro _ hdiff path
    have hwritten : ∀ w, w ∈ outcome.writes ↔ ∃ file ∈ reports, w.1 = file.path ∧
        Amends file.source.text (keptEdits session.plan risky file.report) (some w.2) :=
      fun w => (hwrites w).trans (and_iff_right hdiff)
    cases read_files hreports hwritten path with
    | inl hfixed =>
      obtain ⟨file, hfile, hplace, result, hamends, hafter⟩ := hfixed
      have hcollected : file.path ∈ files.sources paths := hpaths ▸ List.mem_map_of_mem hfile
      cases hamends with
      | applied hsome hresult =>
        exact Or.inl ⟨⟨file.path, hcollected, hplace⟩, _, _, result,
          (Files.read_congr hplace).trans (hreports file hfile).read, hkeeps file hfile, hsome,
          hresult, hafter⟩
    | inr hkept =>
      refine Or.inr ⟨hkept.1, fun hcollected => ?_⟩
      obtain ⟨q, hq, hplace⟩ := hcollected
      rw [← hpaths] at hq
      obtain ⟨file, hfile, rfl⟩ := List.mem_map.1 hq
      have hnone : keptEdits session.plan risky file.report = [] := hkept.2 file hfile hplace
      exact ⟨_, (Files.read_congr hplace).trans (hreports file hfile).read,
        hnone ▸ hkeeps file hfile⟩

/-- Fixing reads everything before it writes anything, and changes a file only by the edits that are
kept for it. -/
theorem run_fixes_files {trees : Trees} {files : Files} {directory : String} {args : Arguments}
    {session : Session} {opening : List Utterance} {diffOnly risky : Bool}
    (hsession : openSession files directory args.config = .ok (session, opening))
    (hrules : session.rules ≠ []) (haction : args.action = .fix diffOnly risky)
    (hparsed : ∀ path ∈ files.sources args.paths, ∀ text, files.read path = .ok text →
      ∃ root, trees text = some root ∧ root.ParsedFrom text) :
    FixesFiles trees files session args.paths diffOnly risky (run trees files directory args) := by
  obtain ⟨said, hrun⟩ := run_fix trees hsession hrules haction
  rw [hrun]
  cases lintFiles_cases (create?_of_openSession hsession) hparsed with
  | inl hall =>
    obtain ⟨_, reports, hlint, hpaths, hreports⟩ := hall
    obtain ⟨outcome, hfixed, hexit, hwrites⟩ :=
      exists_fixReports hreports session.plan diffOnly risky
    rw [hlint]
    simp only [hfixed, Except.toOption, Option.getD_some]
    exact fixesFiles_of_reports hpaths hreports hexit hwrites
  | inr hfailed =>
    obtain ⟨_, path, why, hpath, hread, hlint⟩ := hfailed
    rw [hlint]
    exact fixesFiles_of_unreadable hpath hread said

def accentedFiles : Files := ⟨"", [], .directory [("A.java", .file (some Lint.accentedText))]⟩

def fixTwice : Arguments := ⟨.fix false false, ["A.java", "./A.java"], none, 0⟩

theorem file_collected_twice_is_fixed_once : ∃ root session opening,
    Cst.ofRows? Lint.accentedRows = some root ∧
    openSession accentedFiles "" fixTwice.config = .ok (session, opening) ∧ session.rules ≠ [] ∧
    FixesFiles (fun _ => some root) accentedFiles session fixTwice.paths false false
      (run (fun _ => some root) accentedFiles "" fixTwice) ∧
    ((run (fun _ => some root) accentedFiles "" fixTwice).files accentedFiles).read "A.java" =
      .ok "\x7b\r\n\tf(c ? \"é\" : \"b\"); // ü\r\n\x7d".toList := by
  have hcheck : (Cst.ofRows? Lint.accentedRows).any (fun root =>
      (accentedFiles.sources fixTwice.paths).all (fun path =>
        match accentedFiles.read path with
        | .ok text => decide (root.ParsedFrom text)
        | .error _ => false) &&
      match ((run (fun _ => some root) accentedFiles "" fixTwice).files accentedFiles).read
          "A.java" with
      | .ok text => text == "\x7b\r\n\tf(c ? \"é\" : \"b\"); // ü\r\n\x7d".toList
      | .error _ => false) = true := by
    decide +kernel
  have hopens : (match openSession accentedFiles "" fixTwice.config with
      | .ok (session, _) => !session.rules.isEmpty
      | .error _ => false) = true := by
    decide +kernel
  obtain ⟨root, hroot, hfound⟩ := (Option.any_eq_true _ _).1 hcheck
  rw [Bool.and_eq_true, List.all_eq_true] at hfound
  cases hsession : openSession accentedFiles "" fixTwice.config with
  | error why => simp [hsession] at hopens
  | ok opened =>
    obtain ⟨session, opening⟩ := opened
    have hrules : session.rules ≠ [] := by simpa [hsession] using hopens
    have hparsed : ∀ path ∈ accentedFiles.sources fixTwice.paths, ∀ text,
        accentedFiles.read path = .ok text → ∃ t, some root = some t ∧ t.ParsedFrom text := by
      intro path hpath text htext
      have hfits := hfound.1 path hpath
      rw [htext] at hfits
      exact ⟨root, rfl, of_decide_eq_true hfits⟩
    refine ⟨root, session, opening, hroot, rfl, hrules,
      run_fixes_files hsession hrules rfl hparsed, ?_⟩
    cases hafter : ((run (fun _ => some root) accentedFiles "" fixTwice).files accentedFiles).read
        "A.java" with
    | error why => simp [hafter] at hfound
    | ok text =>
      rw [hafter] at hfound
      rw [eq_of_beq hfound.2]

end Run

end Command

end IfCollapse
