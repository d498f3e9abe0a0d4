import IfCollapse.Proofs.Fixing
import IfCollapse.Proofs.Gathering
import IfCollapse.Proofs.Locations

/-! How runs end. A run reads all that is gathered for its paths and ends at the first that cannot be
read; then nothing is printed, whatever the others hold. A directory that is named like a source is
gathered, and cannot be read. -/

namespace IfCollapse

theorem Source.exists_locate {text : List Char} {offset : Nat} (h : isBoundary text offset = true) :
    ∃ l, (ofText text).locate offset = .ok l := by
  obtain ⟨left, right, rfl, rfl⟩ := isBoundary_iff.1 h
  have hascii : (LineTable.ofText (left ++ right)).ascii = true → IsAscii left :=
    fun hall c hc => ascii_ofText.1 hall c (List.mem_append_left right hc)
  exact ⟨_, locate_indexed hascii⟩

namespace Lint

open Java Branch Suppression

variable {source : Source} {text : List Char} {root : Cst} {rules : List Rule} {report : Report}
  {filters : List Suppression.Filter} {g : RuleFinding}

theorem check_of_lint (h : lint source root rules filters = .ok report)
    (hg : g ∈ report.findings) : ∃ c ∈ root.places, ∃ rule ∈ rules, ∃ remarks,
      rule.check source c = .ok remarks ∧ g.finding ∈ remarks.findings := by
  obtain ⟨regions, _, h⟩ := bind_eq_ok.1 h
  obtain ⟨visits, hvisits, h⟩ := bind_eq_ok.1 h
  rw [← Except.ok.inj h, findings_foldl_append, List.nil_append, List.mem_flatMap] at hg
  obtain ⟨part, hpart, hg⟩ := hg
  obtain ⟨parts, hparts, hpart⟩ := List.mem_flatten.1 hpart
  obtain ⟨c, hc, hvisit⟩ := exists_of_mem_mapM hvisits hparts
  obtain ⟨rule, hrule, hvisit⟩ := exists_of_mem_mapM hvisit hpart
  exact ⟨c, hc, rule, hrule, finding_of_visit hvisit hg⟩

theorem start_of_parsedFrom {t : Cst} (h : t.ParsedFrom text) :
    isBoundary text t.span.start = true := by
  obtain ⟨row, index, children⟩ := t
  exact h.1

theorem span_of_findingOf {comments : List Span} {keyword : Span} {r : Replacement} {f : Finding}
    (h : findingOf source comments keyword r = .ok f) : f.span = keyword := by
  obtain ⟨_, _, h⟩ := bind_eq_ok.1 h
  obtain ⟨_, _, h⟩ := bind_eq_ok.1 h
  obtain ⟨_, _, h⟩ := bind_eq_ok.1 h
  rw [← Except.ok.inj h]

theorem start_of_lint (hroot : root.ParsedFrom text)
    (hrules : ∀ rule ∈ rules, ∃ name properties,
      Registry.builtin.create? name properties = some rule)
    (h : lint (.ofText text) root rules filters = .ok report) (hg : g ∈ report.findings) :
    isBoundary text g.finding.span.start = true := by
  obtain ⟨c, hc, rule, hrule, remarks, hcheck, hfinding⟩ := check_of_lint h hg
  obtain ⟨name, properties, hcreate⟩ := hrules rule hrule
  rw [check_of_create? hcreate] at hcheck
  obtain ⟨_, tree, _, r, _, _, hfound⟩ := replacement_of_checkIf hcheck hfinding
  rw [span_of_findingOf hfound]
  have hnode : c.node.ParsedFrom text :=
    (all_of_mem_places (fun t ht u hu => ht.child hu) hroot c hc).node
  cases hhead : c.node.children.head? with
  | none => exact start_of_parsedFrom hnode
  | some t => exact start_of_parsedFrom (hnode.child (List.mem_of_head? hhead))

end Lint

namespace Command

variable {trees : Trees} {files : Files} {directory : String} {args : Arguments} {session : Session}
  {opening said : List Utterance} {rules : List Lint.Rule} {paths : List String} {path : String}
  {reports : List FileReport} {outcome : Outcome}

section Utterances

def Quiet (said : List Utterance) : Prop :=
  ∀ text, Utterance.print text ∉ said

theorem Quiet.append {more : List Utterance} (h : Quiet said) (hmore : Quiet more) :
    Quiet (said ++ more) :=
  fun text hmem => (List.mem_append.1 hmem).elim (h text) (hmore text)

theorem quiet_map_log (events : List Event) : Quiet (events.map .log) := by
  simp [Quiet]

theorem quiet_map_warn (lines : List String) : Quiet (lines.map .warn) := by
  simp [Quiet]

theorem Quiet.output (h : Quiet outcome.said) : outcome.output = [] := by
  refine List.flatMap_eq_nil_iff.2 fun u hu => ?_
  cases u with
  | print text => exact absurd hu (h text)
  | warn | log => rfl

theorem output_ne_nil {line : String} (h : printLine line ∈ outcome.said) : outcome.output ≠ [] := by
  intro hnil
  have hline := List.flatMap_eq_nil_iff.1 hnil _ h
  simp [printLine] at hline

theorem quiet_lintFile {report : Option FileReport}
    (h : lintFile trees files rules path = .ok (said, report)) : Quiet said := by
  unfold lintFile at h
  split at h
  · cases h
  split at h
  · rw [← (Prod.mk.inj (Except.ok.inj h)).1]
    exact quiet_map_warn [_]
  split at h
  · cases h
  · rw [← (Prod.mk.inj (Except.ok.inj h)).1]
    exact quiet_map_log _

theorem quiet_lintFiles (trees : Trees) (files : Files) (rules : List Lint.Rule)
    (paths : List String) : Quiet (lintFiles trees files rules paths).1 := by
  induction paths with
  | nil => simp [lintFiles, Quiet]
  | cons path paths ih =>
    rw [lintFiles]
    split
    · simp [Quiet]
    · rename_i said report hfile
      exact (quiet_lintFile hfile).append ih

theorem quiet_openSession {config : Option String}
    (h : openSession files directory config = .ok (session, opening)) : Quiet opening := by
  obtain ⟨plan, _, h⟩ := bind_eq_ok.1 h
  rw [← (Prod.mk.inj (Except.ok.inj h)).2]
  exact quiet_map_log _

end Utterances

/-- Nothing is printed until all files have been read and linted. -/
theorem run_eq (trees : Trees)
    (hsession : openSession files directory args.config = .ok (session, opening))
    (hrules : session.rules ≠ []) :
    ∃ said, Quiet said ∧ run trees files directory args = Outcome.after said
      (match (lintFiles trees files session.rules (files.sources args.paths)).2 with
      | .error why => why.outcome
      | .ok reports =>
        match args.action with
        | .check => (checkReports reports).toOption.getD ⟨[], [], faultCode⟩
        | .fix diffOnly risky =>
          (fixReports session.plan diffOnly risky reports).toOption.getD ⟨[], [], faultCode⟩) := by
  have hsome : session.rules.isEmpty = false := by simpa using hrules
  have hquiet := quiet_lintFiles trees files session.rules (files.sources args.paths)
  have hopening := (quiet_openSession hsession).append (quiet_map_warn [announcement
    (match args.action with | .check => "Checking" | .fix _ _ => "Fixing") session.rules])
  refine ⟨_, hopening.append hquiet, ?_⟩
  simp only [run, hsession, hsome, Bool.false_eq_true, if_false]
  rfl

/-- A run that ends at a path that it cannot read. It says so; nothing is printed, and nothing is
written. -/
structure StopsAt (files : Files) (path : String) (outcome : Outcome) : Prop where
  unreadable : ∃ why, files.read path = .error why
  exit : outcome.exit = 1
  writes : outcome.writes = []
  output : outcome.output = []
  told : .warn ("Error: Failed to read " ++ path) ∈ outcome.said

theorem stopsAt_after {why : ReadError} (hread : files.read path = .error why) (hsaid : Quiet said) :
    StopsAt files path ((Failure.unreadable path why).outcome.after said) := by
  have hline : "Error: Failed to read " ++ path = "Error: " ++ ("Failed to read " ++ path) := by
    rw [← String.append_assoc]
    rfl
  have hquiet : Quiet (Failure.unreadable path why).outcome.said :=
    (quiet_map_warn [_, _, _]).append (quiet_map_warn _)
  refine ⟨⟨why, hread⟩, rfl, rfl, Quiet.output (hsaid.append hquiet), ?_⟩
  rw [hline]
  exact List.mem_append_right said List.mem_cons_self

/-- A run that reports on all its paths and gets to its last line. Only findings make it fail, and
only a check. -/
def Finishes (trees : Trees) (files : Files) (rules : List Lint.Rule) (paths : List String)
    (action : Action) (outcome : Outcome) : Prop :=
  ∃ reports : List FileReport, reports.map (·.path) = paths ∧
    (∀ file ∈ reports, Reports trees files rules file) ∧ outcome.output ≠ [] ∧
    (outcome.exit = 0 ∨ outcome.exit = 1 ∧ action = .check ∧
      ∃ file ∈ reports, file.report.findings ≠ [])

theorem exists_checkReports (h : ∀ file ∈ reports, ∃ lines, findingLines file = .ok lines) :
    ∃ outcome line, checkReports reports = .ok outcome ∧ printLine line ∈ outcome.said ∧
      (outcome.exit = 0 ∨ outcome.exit = 1 ∧ ∃ file ∈ reports, file.report.findings ≠ []) := by
  obtain ⟨lines, hlines⟩ := exists_mapM h
  unfold checkReports
  rw [hlines]
  simp only [bind, Except.bind, pure, Except.pure]
  split
  · rename_i hsome
    refine ⟨_, _, rfl, List.mem_append_right _ (List.mem_singleton_self _), Or.inr ⟨rfl, ?_⟩⟩
    obtain ⟨g, hg⟩ := List.exists_mem_of_length_pos hsome
    obtain ⟨file, hfile, hg⟩ := List.mem_flatMap.1 hg
    exact ⟨file, hfile, List.ne_nil_of_mem hg⟩
  · exact ⟨_, _, rfl, List.mem_append_right _ (List.mem_singleton_self _), Or.inl rfl⟩

theorem source_of_lintFile {file : FileReport}
    (h : lintFile trees files rules path = .ok (said, some file)) :
    file.source = .ofText file.source.text := by
  unfold lintFile at h
  split at h
  · cases h
  split at h
  · cases h
  split at h
  · cases h
  · rw [← Option.some.inj (Prod.mk.inj (Except.ok.inj h)).2]
    rfl

theorem source_of_lintFiles (h : (lintFiles trees files rules paths).2 = .ok reports) :
    ∀ file ∈ reports, file.source = .ofText file.source.text := by
  induction paths generalizing reports with
  | nil =>
    rw [← Except.ok.inj h]
    simp
  | cons path paths ih =>
    rw [lintFiles] at h
    split at h
    · cases h
    · rename_i said report hfile
      cases hrest : (lintFiles trees files rules paths).2 with
      | error why => simp [hrest, Except.map] at h
      | ok rest =>
        have hreports : report.toList ++ rest = reports := by simpa [hrest, Except.map] using h
        intro file hmem
        rw [← hreports, List.mem_append, Option.mem_toList] at hmem
        cases hmem with
        | inl hfirst => exact source_of_lintFile (hfirst ▸ hfile)
        | inr hlater => exact ih hrest file hlater

theorem exists_findingLines {file : FileReport} (hsource : file.source = .ofText file.source.text)
    (h : ∀ g ∈ file.report.findings, isBoundary file.source.text g.finding.span.start = true) :
    ∃ lines, findingLines file = .ok lines := by
  refine exists_mapM fun g hg => ?_
  obtain ⟨l, hl⟩ := Source.exists_locate (h g hg)
  rw [hsource]
  exact ⟨_, bind_eq_ok.2 ⟨l, hl, rfl⟩⟩

theorem printed_of_fixReports {plan : Plan} {diffOnly risky : Bool}
    (h : fixReports plan diffOnly risky reports = .ok outcome) :
    ∃ line, printLine line ∈ outcome.said := by
  obtain ⟨fixes, _, h⟩ := bind_eq_ok.1 h
  rw [← Except.ok.inj h]
  exact ⟨_, List.mem_append_right _ List.mem_cons_self⟩

theorem run_stops_or_finishes (trees : Trees)
    (hsession : openSession files directory args.config = .ok (session, opening))
    (hrules : session.rules ≠ [])
    (hparsed : ∀ q ∈ files.sources args.paths, ∀ text, files.read q = .ok text →
      ∃ root, trees text = some root ∧ root.ParsedFrom text) :
    (∃ q ∈ files.sources args.paths, StopsAt files q (run trees files directory args)) ∨
    Finishes trees files session.rules (files.sources args.paths) args.action
      (run trees files directory args) := by
  obtain ⟨said, hquiet, hrun⟩ := run_eq trees hsession hrules
  rw [hrun]
  have hcreate := create?_of_openSession hsession
  cases lintFiles_cases hcreate hparsed with
  | inr hfailed =>
    obtain ⟨_, q, why, hq, hread, hlint⟩ := hfailed
    rw [hlint]
    exact Or.inl ⟨q, hq, stopsAt_after hread hquiet⟩
  | inl hall =>
    obtain ⟨_, reports, hlint, hpaths, hreports⟩ := hall
    have hsource := source_of_lintFiles (congrArg Prod.snd hlint)
    have hlines : ∀ file ∈ reports, ∃ lines, findingLines file = .ok lines := by
      intro file hfile
      refine exists_findingLines (hsource file hfile) fun g hg => ?_
      obtain ⟨root, htree, hreport⟩ := (hreports file hfile).linted
      obtain ⟨parsed, hparsedTree, hroot⟩ :=
        hparsed file.path (hpaths ▸ List.mem_map_of_mem hfile) _ (hreports file hfile).read
      rw [htree, Option.some.injEq] at hparsedTree
      exact Lint.start_of_lint (hparsedTree ▸ hroot) hcreate hreport hg
    refine Or.inr ⟨reports, hpaths, hreports, ?_⟩
    rw [hlint]
    cases args.action with
    | check =>
      obtain ⟨outcome, line, hchecked, hline, hexit⟩ := exists_checkReports hlines
      simp only [hchecked, Except.toOption, Option.getD_some]
      refine ⟨output_ne_nil (List.mem_append_right said hline), ?_⟩
      exact hexit.imp_right fun hfound => ⟨hfound.1, trivial, hfound.2⟩
    | fix diffOnly risky =>
      obtain ⟨outcome, hfixed, hexit, _⟩ :=
        exists_fixReports hreports session.plan diffOnly risky
      obtain ⟨line, hline⟩ := printed_of_fixReports hfixed
      simp only [hfixed, Except.toOption, Option.getD_some]
      exact ⟨output_ne_nil (List.mem_append_right said hline), Or.inl hexit⟩

theorem run_ends (trees : Trees)
    (hsession : openSession files directory args.config = .ok (session, opening))
    (hrules : session.rules ≠ [])
    (hparsed : ∀ q ∈ files.sources args.paths, ∀ text, files.read q = .ok text →
      ∃ root, trees text = some root ∧ root.ParsedFrom text) :
    ((∃ q ∈ files.sources args.paths, ∃ why, files.read q = .error why) →
      ∃ q ∈ files.sources args.paths, StopsAt files q (run trees files directory args)) ∧
    ((∀ q ∈ files.sources args.paths, ∃ text, files.read q = .ok text) →
      Finishes trees files session.rules (files.sources args.paths) args.action
        (run trees files directory args)) := by
  cases run_stops_or_finishes trees hsession hrules hparsed with
  | inl hstops =>
    refine ⟨fun _ => hstops, fun hall => ?_⟩
    obtain ⟨q, hq, hstop⟩ := hstops
    obtain ⟨why, hwhy⟩ := hstop.unreadable
    obtain ⟨text, htext⟩ := hall q hq
    rw [hwhy] at htext
    cases htext
  | inr hfinishes =>
    refine ⟨fun hsome => ?_, fun _ => hfinishes⟩
    obtain ⟨reports, hpaths, hreports, _⟩ := hfinishes
    obtain ⟨q, hq, why, hwhy⟩ := hsome
    rw [← hpaths] at hq
    obtain ⟨file, hfile, rfl⟩ := List.mem_map.1 hq
    rw [(hreports file hfile).read] at hwhy
    cases hwhy

/-- For each path, what is named like a source at it or below it is gathered once, in the order of the
paths. All that is gathered are files exactly if no directory is named like a source. Such a directory
ends a run, whatever the other files hold; without one, and with a text in each file, a run
finishes. -/
theorem gathers_files_iff {files : Files} (hfiles : files.Proper) (paths : List String) :
    files.sources paths = paths.flatMap files.sourcesAt ∧
    (∀ path, (files.sourcesAt path).Nodup ∧ ∀ q, q ∈ files.sourcesAt path ↔
      Files.isJava q = true ∧ ∃ node, files.Reaches path q node) ∧
    (∀ path q node, files.Reaches path q node → files.get? q = some node) ∧
    ((∀ q ∈ files.sources paths, files.IsFile q) ↔
      ∀ path ∈ paths, ¬ files.HoldsNamedDirectory path) ∧
    ∀ (trees : Trees) (directory : String) (args : Arguments) (session : Session)
      (opening : List Utterance), args.paths = paths →
      openSession files directory args.config = .ok (session, opening) → session.rules ≠ [] →
      (∀ q ∈ files.sources paths, ∀ text, files.read q = .ok text →
        ∃ root, trees text = some root ∧ root.ParsedFrom text) →
      ((∃ path ∈ paths, files.HoldsNamedDirectory path) →
        ∃ q ∈ files.sources paths, StopsAt files q (run trees files directory args)) ∧
      ((∀ path ∈ paths, ¬ files.HoldsNamedDirectory path) →
        (∀ q ∈ files.sources paths, files.get? q ≠ some (.file none)) →
        Finishes trees files session.rules (files.sources paths) args.action
          (run trees files directory args)) := by
  refine ⟨rfl, fun path => ⟨Files.nodup_sourcesAt hfiles path, fun q =>
    Files.mem_sourcesAt_iff hfiles⟩, fun path q node h => h.get? hfiles,
    Files.sources_isFile_iff hfiles paths, ?_⟩
  rintro trees directory args session opening rfl hsession hrules hparsed
  obtain ⟨hstops, hfinishes⟩ := run_ends trees hsession hrules hparsed
  refine ⟨?_, fun hnone htexts => hfinishes fun q hq => ?_⟩
  · rintro ⟨path, hpath, q, entries, hjava, hreaches⟩
    have hread : files.read q = .error .directory := by
      simp only [Files.read, hreaches.get? hfiles]
    exact hstops ⟨q, Files.mem_sources_of_reaches hfiles hpath hjava hreaches, _, hread⟩
  · have hfile := (Files.sources_isFile_iff hfiles args.paths).2 hnone q hq
    exact Files.exists_read hfile (htexts q hq)

def nestedFiles : Files :=
  ⟨"", [], .directory [("A.java", .file (some Lint.accentedText)),
    ("sub", .directory [("B.java", .file (some Lint.accentedText)), ("notes", .file none)])]⟩

theorem proper_nestedFiles : nestedFiles.Proper := by
  have hinner : (Node.directory [("B.java", .file (some Lint.accentedText)),
      ("notes", .file none)]).Proper :=
    .directory (by decide) (by decide) (by simpa using ⟨.file _, .file _⟩)
  exact ⟨.directory (by decide) (by decide) (by simpa using ⟨.file _, hinner⟩), by decide, by decide⟩

def checkAll : Arguments := ⟨.check, ["."], none, 0⟩

theorem nested_sources_are_checked : nestedFiles.Proper ∧
    nestedFiles.sources ["."] = ["./A.java", "./sub/B.java"] ∧
    (∀ q ∈ nestedFiles.sources ["."], nestedFiles.IsFile q) ∧
    ∃ root session opening, Java.Cst.ofRows? Lint.accentedRows = some root ∧
      openSession nestedFiles "" checkAll.config = .ok (session, opening) ∧ session.rules ≠ [] ∧
      Finishes (fun _ => some root) nestedFiles session.rules ["./A.java", "./sub/B.java"] .check
        (run (fun _ => some root) nestedFiles "" checkAll) := by
  have hsources : nestedFiles.sources ["."] = ["./A.java", "./sub/B.java"] := by
    decide +kernel
  have hcheck : (Java.Cst.ofRows? Lint.accentedRows).any (fun root =>
      (nestedFiles.sources ["."]).all (fun path =>
        match nestedFiles.read path with
        | .ok text => decide (root.ParsedFrom text)
        | .error _ => false)) = true := by
    decide +kernel
  have hopens : (match openSession nestedFiles "" checkAll.config with
      | .ok (session, _) => !session.rules.isEmpty
      | .error _ => false) = true := by
    decide +kernel
  obtain ⟨root, hroot, hfound⟩ := (Option.any_eq_true _ _).1 hcheck
  have hread : ∀ q ∈ nestedFiles.sources ["."], ∃ text, nestedFiles.read q = .ok text ∧
      root.ParsedFrom text := by
    intro q hq
    have hfits := List.all_eq_true.1 hfound q hq
    cases htext : nestedFiles.read q with
    | error why => simp [htext] at hfits
    | ok text => exact ⟨text, rfl, by simpa [htext] using hfits⟩
  obtain ⟨_, _, _, hiff, hruns⟩ := gathers_files_iff proper_nestedFiles ["."]
  have hfiles : ∀ q ∈ nestedFiles.sources ["."], nestedFiles.IsFile q := by
    intro q hq
    obtain ⟨text, htext, _⟩ := hread q hq
    exact ⟨some text, Files.read_eq_ok_iff.1 htext⟩
  refine ⟨proper_nestedFiles, hsources, hfiles, ?_⟩
  cases hsession : openSession nestedFiles "" checkAll.config with
  | error why => simp [hsession] at hopens
  | ok opened =>
    obtain ⟨session, opening⟩ := opened
    have hrules : session.rules ≠ [] := by simpa [hsession] using hopens
    refine ⟨root, session, opening, hroot, rfl, hrules, ?_⟩
    have hparsed : ∀ q ∈ nestedFiles.sources ["."], ∀ text, nestedFiles.read q = .ok text →
        ∃ t, some root = some t ∧ t.ParsedFrom text := by
      intro q hq text htext
      obtain ⟨other, hother, hfits⟩ := hread q hq
      rw [htext, Except.ok.injEq] at hother
      exact ⟨root, rfl, hother ▸ hfits⟩
    have htexts : ∀ q ∈ nestedFiles.sources ["."], nestedFiles.get? q ≠ some (.file none) := by
      intro q hq
      obtain ⟨text, htext, _⟩ := hread q hq
      simp [Files.read_eq_ok_iff.1 htext]
    rw [← hsources]
    exact (hruns _ "" checkAll session opening rfl hsession hrules hparsed).2 (hiff.1 hfiles) htexts

def directoryFiles : Files :=
  ⟨"", [], .directory [("A.java", .file (some Lint.accentedText)), ("D.java", .directory [])]⟩

theorem named_directory_ends_check :
    directoryFiles.sources ["."] = ["./A.java", "./D.java"] ∧
    directoryFiles.read "./D.java" = .error .directory ∧
    ∃ root, Java.Cst.ofRows? Lint.accentedRows = some root ∧ root.ParsedFrom Lint.accentedText ∧
      (run (fun _ => some root) directoryFiles "" checkAll).exit = 1 ∧
      (run (fun _ => some root) directoryFiles "" checkAll).output = [] ∧
      (run (fun _ => some root) accentedFiles "" checkAll).output ≠ [] := by
  have hcheck : (Java.Cst.ofRows? Lint.accentedRows).any (fun root =>
      decide (root.ParsedFrom Lint.accentedText ∧
        (run (fun _ => some root) directoryFiles "" checkAll).exit = 1 ∧
        (run (fun _ => some root) directoryFiles "" checkAll).output = [] ∧
        (run (fun _ => some root) accentedFiles "" checkAll).output ≠ [])) = true := by
    decide +kernel
  refine ⟨by decide +kernel, by decide +kernel, ?_⟩
  obtain ⟨root, hroot, hfound⟩ := (Option.any_eq_true _ _).1 hcheck
  exact ⟨root, hroot, of_decide_eq_true hfound⟩

end Command

end IfCollapse
