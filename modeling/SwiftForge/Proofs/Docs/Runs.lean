import SwiftForge.Command.Run
import SwiftForge.Proofs.Docs.Printed
import SwiftForge.Proofs.Docs.Walk

/-! Runs over files and directories. A run goes through the files that its paths stand for, one after the other: it
    gives the reports on them in a row, or it ends at the first file that fails. What is printed and the exit status
    tell what the run found. -/

namespace SwiftForge.Docs

/-- Reports one after the other. -/
def Report.concat (reports : List Report) : Report := { findings := reports.flatMap Report.findings }

/-! ### Runs and their reports -/

namespace Run

theorem report_append (a b : Run) :
    (a ++ b).report = (do
      let first ← a.report
      let second ← b.report
      return Report.concat [first, second]) := by
  cases ha : a.failure with
  | some e =>
    rw [append_of_failure ha, report, ha]
    rfl
  | none =>
    rw [append_of_no_failure ha]
    simp only [report, ha]
    cases b.failure with
    | some e => rfl
    | none => simp [Report.concat, bind, Except.bind, pure, Except.pure]

theorem report_eq_error_iff {r : Run} {e : RunFailure} : r.report = .error e ↔ r.failure = some e := by
  unfold report
  cases r.failure <;> simp

end Run

namespace Inspection

/-- A file is wanted: its name has one of the extensions. -/
def Wants (i : Inspection) (name : String) : Prop := ∃ ext ∈ i.settings.extensions, FileTree.HasExtension name ext

/-- The files that a path stands for: those below a directory that are wanted, in the order of their names, or the path
    itself. -/
inductive Contributes (i : Inspection) (root : FileTree) (path : String) : List String → Prop
  | itself (h : ∀ entries, root.resolve? path ≠ some (.directory entries)) : Contributes i root path [path]
  | below {entries : List (String × FileTree)} {ways : List (List String)}
      (h : root.resolve? path = some (.directory entries))
      (mem_ways_iff : ∀ way, way ∈ ways ↔ ∃ text, FileTree.Finds i.Wants entries way text)
      (sorted : ways.Pairwise (· < ·))
      (read : ∀ way text, FileTree.Finds i.Wants entries way text → root.read? (FileTree.along path way) = text) :
      Contributes i root path (ways.map (FileTree.along path))

/-- A file can be read, and the checker can be run on all that it has for it. -/
def Passes (i : Inspection) (root : FileTree) (file : String) : Prop :=
  ∃ text, root.read? file = some text ∧
    ∀ source ∈ (Sample.extract file text).filterMap i.source?, ¬ i.CannotRun source

/-- What goes wrong with a file: it cannot be read, or the checker cannot be run on a source, for the first time. -/
inductive Fails (i : Inspection) (root : FileTree) (file : String) : RunFailure → Prop
  | io (h : root.read? file = none) : Fails i root file (.io file)
  | checker {text source program cause : String} {before after : List String} (h : root.read? file = some text)
      (hsources : (Sample.extract file text).filterMap i.source? = before ++ source :: after)
      (hbefore : ∀ earlier ∈ before, ¬ i.CannotRun earlier)
      (hrun : i.checker source = .error (.launch program cause)) : Fails i root file (.checker (.launch program cause))

/-- The report on a file. -/
def ReportOf (i : Inspection) (root : FileTree) (file : String) (report : Report) : Prop :=
  ∃ text, root.read? file = some text ∧ (i.checkText file text).report = .ok report

variable {i : Inspection} {root : FileTree} {path file : String}

/-! ### One file -/

theorem passes_or_fails (i : Inspection) (root : FileTree) (file : String) :
    i.Passes root file ∨ ∃ e, i.Fails root file e := by
  cases hread : root.read? file with
  | none => exact .inr ⟨_, .io hread⟩
  | some text =>
    by_cases hall : ∀ source ∈ (Sample.extract file text).filterMap i.source?, ¬ i.CannotRun source
    · exact .inl ⟨text, hread, hall⟩
    · obtain ⟨before, source, after, hsources, hbefore, hnot⟩ := exists_first_not hall
      obtain ⟨program, cause, hrun⟩ := not_not.1 hnot
      exact .inr ⟨_, .checker hread hsources hbefore hrun⟩

theorem ReportOf.report_eq {report : Report} (h : i.ReportOf root file report) :
    (i.checkFile root file).report = .ok report := by
  obtain ⟨text, hread, hreport⟩ := h
  rwa [checkFile, hread]

theorem exists_reportOf (h : i.Passes root file) : ∃ report, i.ReportOf root file report := by
  obtain ⟨text, hread, hrun⟩ := h
  obtain ⟨findings, -, hsequence⟩ := exists_sequence hrun
  refine ⟨{ findings }, text, hread, ?_⟩
  rw [checkText, hsequence]
  rfl

theorem report_of_fails {e : RunFailure} (h : i.Fails root file e) : (i.checkFile root file).report = .error e := by
  rw [Run.report_eq_error_iff, checkFile]
  cases h with
  | io hread => rw [hread]
  | checker hread hsources hbefore hrun =>
    rw [hread]
    exact (sequence_of_cannotRun hsources hbefore hrun).2

/-! ### Many files -/

theorem exists_reports_of_passes {files : List String} (h : ∀ file ∈ files, i.Passes root file) :
    ∃ reports, List.Forall₂ (i.ReportOf root) files reports ∧
      (Run.sequence (files.map (i.checkFile root))).report = .ok (.concat reports) := by
  induction files with
  | nil => exact ⟨[], .nil, rfl⟩
  | cons file files ih =>
    obtain ⟨hfile, hfiles⟩ := List.forall_mem_cons.1 h
    obtain ⟨report, hreport⟩ := exists_reportOf hfile
    obtain ⟨reports, hall, hreports⟩ := ih hfiles
    refine ⟨report :: reports, .cons hreport hall, ?_⟩
    rw [List.map_cons, Run.sequence, Run.report_append, hreport.report_eq, hreports]
    simp [Report.concat, bind, Except.bind, pure, Except.pure]

theorem report_of_first_failure {before after : List String} {e : RunFailure}
    (hbefore : ∀ file ∈ before, i.Passes root file) (h : i.Fails root file e) :
    (Run.sequence ((before ++ file :: after).map (i.checkFile root))).report = .error e := by
  obtain ⟨reports, -, hreports⟩ := exists_reports_of_passes hbefore
  rw [List.map_append, Run.sequence_append, Run.report_append, hreports, List.map_cons, Run.sequence,
    Run.report_append, report_of_fails h]
  rfl

theorem checkPaths_append (p q : List String) :
    i.checkPaths root (p ++ q) = i.checkPaths root p ++ i.checkPaths root q := by
  rw [checkPaths, List.flatMap_append, List.map_append, Run.sequence_append]
  rfl

theorem isWanted_iff {name : String} : i.isWanted name = true ↔ i.Wants name := by
  unfold isWanted Wants
  simp only [← FileTree.extension?_eq_some_iff]
  cases FileTree.extension? name <;> simp

theorem takes_iff {found : FileTree.Found} :
    i.takes found = true ↔ found.isFile = true ∧ ∃ last ∈ found.way.getLast?, i.Wants last := by
  simp only [takes, Bool.and_eq_true, Option.any_eq_true, isWanted_iff, Option.mem_def]

/-- The ways to the files that are wanted are those on which a walk has come to something it takes. -/
theorem mem_takes_iff (hwalk : i.walk.Lawful) {entries : List (String × FileTree)}
    (hentries : (FileTree.directory entries).Ordered) (way : List String) :
    way ∈ ((i.walk entries).filter i.takes).map (·.way) ↔ ∃ text, FileTree.Finds i.Wants entries way text := by
  simp only [List.mem_map, List.mem_filter, hwalk.mem_iff hentries, takes_iff, FileTree.finds_iff_leads]
  constructor
  · rintro ⟨found, ⟨⟨tree, hleads, hfile⟩, hisFile, hlast⟩, rfl⟩
    cases tree with
    | file text => exact ⟨text, hleads, hlast⟩
    | directory inner => exact absurd (hfile.2 trivial) (by simp [hisFile])
  · rintro ⟨text, hleads, hlast⟩
    exact ⟨⟨way, true⟩, ⟨⟨_, hleads, iff_of_false (by simp) id⟩, rfl, hlast⟩, rfl⟩

theorem contributes_collect (hroot : root.Ordered) (hwalk : i.walk.Lawful) (path : String) :
    i.Contributes root path (i.collect root path) := by
  unfold collect
  split
  · rename_i entries hpath
    have hentries := hroot.resolve? hpath
    have hways : ((i.walk entries).filter i.takes).map (fun found => FileTree.along path found.way) =
        (((i.walk entries).filter i.takes).map (·.way)).map (FileTree.along path) := by
      rw [List.map_map]
      rfl
    rw [hways]
    refine .below hpath (mem_takes_iff hwalk hentries) ?_ fun way text h => ?_
    · rw [List.pairwise_map]
      exact (hwalk.sorted hentries).filter i.takes
    · rw [FileTree.read?, (FileTree.finds_iff_leads.1 h).1.resolve? hentries hpath]
  · rename_i hpath
    exact .itself hpath

theorem checkPaths_singleton (path : String) :
    i.checkPaths root [path] = Run.sequence ((i.collect root path).map (i.checkFile root)) := by
  rw [checkPaths, List.flatMap_singleton]

/-- If no file fails, every path has its report, and the run has these reports in a row. -/
theorem exists_reports_of_paths {paths : List String}
    (h : ∀ file ∈ paths.flatMap (i.collect root), i.Passes root file) :
    ∃ reports, List.Forall₂ (fun path ofPath => List.Forall₂ (i.ReportOf root) (i.collect root path) ofPath ∧
        (i.checkPaths root [path]).report = .ok (.concat ofPath)) paths reports ∧
      (i.checkPaths root paths).report = .ok (.concat reports.flatten) := by
  induction paths with
  | nil => exact ⟨[], .nil, rfl⟩
  | cons path paths ih =>
    rw [List.flatMap_cons, List.forall_mem_append] at h
    obtain ⟨first, hfirst, hfirstReport⟩ := exists_reports_of_passes h.1
    obtain ⟨reports, hpaths, hreport⟩ := ih h.2
    rw [← checkPaths_singleton] at hfirstReport
    refine ⟨first :: reports, .cons ⟨hfirst, hfirstReport⟩ hpaths, ?_⟩
    rw [← List.singleton_append, checkPaths_append, Run.report_append, hfirstReport, hreport]
    simp [Report.concat, bind, Except.bind, pure, Except.pure]

/-- If a file fails, the run has the failure of the first such file. -/
theorem exists_failure_of_paths {paths : List String}
    (h : ¬ ∀ file ∈ paths.flatMap (i.collect root), i.Passes root file) :
    ∃ before file after e, paths.flatMap (i.collect root) = before ++ file :: after ∧
      (∀ earlier ∈ before, i.Passes root earlier) ∧ i.Fails root file e ∧
      (i.checkPaths root paths).report = .error e := by
  obtain ⟨before, file, after, hfiles, hbefore, hfile⟩ := exists_first_not h
  obtain ⟨e, he⟩ := (i.passes_or_fails root file).resolve_left hfile
  refine ⟨before, file, after, e, hfiles, hbefore, he, ?_⟩
  rw [checkPaths, hfiles, report_of_first_failure hbefore he]

/-- The findings on a file have one line each, if its path has no line feed. -/
theorem ReportOf.feed_not_mem_text {report : Report} (h : i.ReportOf root file report) (hfile : '\n' ∉ file.toList) :
    ∀ f ∈ report.findings, '\n' ∉ f.text.toList := by
  rcases i.passes_or_fails root file with ⟨text, hread, hrun⟩ | ⟨e, he⟩
  · obtain ⟨findings, hfindings, hsequence⟩ := exists_sequence hrun
    have hreport := h.report_eq
    rw [checkFile, hread] at hreport
    simp only [checkText, hsequence] at hreport
    cases hreport
    refine (forall_mem_iff_of_forall₂ hfindings fun s f hf => not_congr hf.feed_mem_text_iff.symm).1 fun s hs => ?_
    rwa [Sample.path_of_mem_extract (List.mem_of_mem_filter hs)]
  · have hreport := h.report_eq
    rw [report_of_fails he] at hreport
    cases hreport

theorem feed_not_mem_text_of_paths {paths : List String} {report : Report}
    (h : (i.checkPaths root paths).report = .ok report)
    (hfiles : ∀ file ∈ paths.flatMap (i.collect root), '\n' ∉ file.toList) :
    ∀ f ∈ report.findings, '\n' ∉ f.text.toList := by
  by_cases hall : ∀ file ∈ paths.flatMap (i.collect root), i.Passes root file
  · obtain ⟨reports, hreports, hconcat⟩ := exists_reports_of_passes hall
    rw [← checkPaths, h] at hconcat
    cases hconcat
    have hboth := (List.forall₂_and_left _ _).2 ⟨hfiles, hreports⟩
    have hlines : ∀ ofFile ∈ reports, ∀ f ∈ ofFile.findings, '\n' ∉ f.text.toList :=
      (forall_mem_iff_of_forall₂ hboth fun _ _ hof =>
        iff_of_true trivial (hof.2.feed_not_mem_text hof.1)).1 fun _ _ => trivial
    intro f hf
    obtain ⟨ofFile, hmem, hf⟩ := List.mem_flatMap.1 hf
    exact hlines ofFile hmem f hf
  · obtain ⟨-, -, -, e, -, -, -, he⟩ := exists_failure_of_paths hall
    rw [h] at he
    cases he

end Inspection

/-! ### The command -/

/-- The exit status is zero exactly if there is a report in which nothing failed. -/
theorem checkDocs_exit_eq_zero_iff (i : Inspection) (root : FileTree) (paths : List String) :
    (Command.checkDocs i root paths).exit = 0 ↔ ∃ report, (i.checkPaths root paths).report = .ok report ∧
      ∀ f ∈ report.findings, ∀ diagnostics, f.outcome ≠ .failed diagnostics := by
  rw [Command.checkDocs]
  cases (i.checkPaths root paths).report with
  | error e => simp [Command.Ending.failed]
  | ok report => simp [← Report.isSuccess_iff]

/-- A run over paths of an ordered tree, by a lawful walk of its directories, goes through the files that each path
    stands for. If none of them fails, every path has a report, and the run gives these reports in the order of the
    paths; otherwise it gives the failure of the first file that fails. Running over more paths is running over the
    first ones and then over the others. The command prints a line for each finding and the totals of these lines, and
    its exit status is zero exactly if there is a report and nothing in it failed. -/
theorem checkPaths_concatenates {root : FileTree} (hroot : root.Ordered) {i : Inspection} (hwalk : i.walk.Lawful)
    (paths : List String) :
    (∀ path, i.Contributes root path (i.collect root path)) ∧
      ((∀ file ∈ paths.flatMap (i.collect root), i.Passes root file) → ∃ reports,
        List.Forall₂ (fun path ofPath => List.Forall₂ (i.ReportOf root) (i.collect root path) ofPath ∧
          (i.checkPaths root [path]).report = .ok (.concat ofPath)) paths reports ∧
        (i.checkPaths root paths).report = .ok (.concat reports.flatten)) ∧
      ((¬ ∀ file ∈ paths.flatMap (i.collect root), i.Passes root file) → ∃ before file after e,
        paths.flatMap (i.collect root) = before ++ file :: after ∧ (∀ earlier ∈ before, i.Passes root earlier) ∧
        i.Fails root file e ∧ (i.checkPaths root paths).report = .error e) ∧
      (∀ more, (i.checkPaths root (paths ++ more)).report = (do
        let first ← (i.checkPaths root paths).report
        let second ← (i.checkPaths root more).report
        return Report.concat [first, second])) ∧
      (∀ report, (i.checkPaths root paths).report = .ok report →
        (Command.checkDocs i root paths).stdout = String.join
          ((report.findings.map Finding.text ++ ["", totals (report.findings.map Finding.text)]).map (· ++ "\n")) ∧
        ((∀ file ∈ paths.flatMap (i.collect root), '\n' ∉ file.toList) →
          Text.physicalLines (Command.checkDocs i root paths).stdout =
            report.findings.map Finding.text ++ ["", totals (report.findings.map Finding.text), ""])) ∧
      (∀ e, (i.checkPaths root paths).report = .error e → (Command.checkDocs i root paths).stdout = "") ∧
      ((Command.checkDocs i root paths).exit = 0 ↔ ∃ report, (i.checkPaths root paths).report = .ok report ∧
        ∀ f ∈ report.findings, ∀ diagnostics, f.outcome ≠ .failed diagnostics) := by
  refine ⟨Inspection.contributes_collect hroot hwalk, Inspection.exists_reports_of_paths,
    Inspection.exists_failure_of_paths, fun more => ?_, fun report hreport => ⟨?_, fun hfiles => ?_⟩, fun e he => ?_,
    checkDocs_exit_eq_zero_iff i root paths⟩
  · rw [Inspection.checkPaths_append, Run.report_append]
  · rw [Command.checkDocs, hreport]
    exact Report.text_eq report
  · rw [Command.checkDocs, hreport]
    exact Report.physicalLines_text (Inspection.feed_not_mem_text_of_paths hreport hfiles)
  · rw [Command.checkDocs, he]
    rfl

/-- A directory with a document and a note that is not UTF-8, and a file beside it. -/
def shelf : FileTree :=
  (((FileTree.directory []).insert "docs/a.md" (.file (some "```swift\na\n```\n"))).insert "docs/notes.txt"
    (.file none)).insert "b.txt" (.file (some "```swift\nb\n```\n"))

theorem shelf_ordered : shelf.Ordered := by
  refine .insert (.insert (.insert FileTree.ordered_empty (.file _) (.inr ?_)) (.file _) (.inr ?_)) (.file _) (.inr ?_)
  all_goals simp [FileTree.components, FileTree.step, FileTree.IsName, Text.splitAt]

theorem collect_shelf :
    ["docs", "b.txt", "docs"].flatMap (strict.collect shelf) = ["docs/a.md", "b.txt", "docs/a.md"] := by
  have hresolve : shelf.resolve? "docs" =
      some (.directory [("a.md", .file (some "```swift\na\n```\n")), ("notes.txt", .file none)]) := rfl
  have hdocs : strict.collect shelf "docs" = ["docs/a.md"] := by
    rw [Inspection.collect, hresolve]
    simp only [strict, FileTree.walk]
    decide
  have hfile : strict.collect shelf "b.txt" = ["b.txt"] := rfl
  simp only [List.flatMap_cons, List.flatMap_nil, hdocs, hfile, List.append_nil, List.singleton_append]

theorem checkPaths_shelf : (strict.checkPaths shelf ["docs", "b.txt", "docs"]).report =
    .ok { findings := [⟨"docs/a.md", 2, 9, 2, .passed⟩, ⟨"b.txt", 2, 9, 2, .failed "refused"⟩,
      ⟨"docs/a.md", 2, 9, 2, .passed⟩] } := by
  rw [Inspection.checkPaths, collect_shelf]
  rfl

theorem strict_walk_lawful : strict.walk.Lawful := FileTree.walk_lawful

theorem checkPaths_concatenates_shelf :
    shelf.Ordered ∧ strict.walk.Lawful ∧ (∃ reports : List (List Report), reports.length = 3 ∧
        (strict.checkPaths shelf ["docs", "b.txt", "docs"]).report = .ok (.concat reports.flatten)) ∧
      Text.physicalLines (Command.checkDocs strict shelf ["docs", "b.txt", "docs"]).stdout =
        ["docs/a.md:2 ... ok", "b.txt:2 ... FAILED", "docs/a.md:2 ... ok", "",
          "doc samples: FAILED. 2 passed; 1 failed; 0 skipped", ""] ∧
      (Command.checkDocs strict shelf ["docs", "b.txt", "docs"]).exit ≠ 0 ∧
      ∃ e, (strict.checkPaths shelf ["b.txt", "gone.md"]).report = .error e := by
  have hpasses : ∀ file ∈ ["docs/a.md", "b.txt", "docs/a.md"], strict.Passes shelf file := by
    have ha : strict.Passes shelf "docs/a.md" :=
      ⟨"```swift\na\n```\n", rfl, by
        intro source hsource
        obtain rfl : source = "a\n" := List.mem_singleton.1 hsource
        rintro ⟨program, cause, hrun⟩
        cases hrun⟩
    have hb : strict.Passes shelf "b.txt" :=
      ⟨"```swift\nb\n```\n", rfl, by
        intro source hsource
        obtain rfl : source = "b\n" := List.mem_singleton.1 hsource
        rintro ⟨program, cause, hrun⟩
        cases hrun⟩
    simp [ha, hb]
  have hgone : ¬ ∀ file ∈ ["b.txt", "gone.md"].flatMap (strict.collect shelf), strict.Passes shelf file := by
    intro h
    obtain ⟨text, hread, -⟩ := h "gone.md" (by decide)
    cases hread
  obtain ⟨-, hok, -, -, hprinted, -, hexit⟩ :=
    checkPaths_concatenates shelf_ordered strict_walk_lawful ["docs", "b.txt", "docs"]
  refine ⟨shelf_ordered, strict_walk_lawful, ?_, ?_, ?_, ?_⟩
  · obtain ⟨reports, hreports, hreport⟩ := hok (collect_shelf ▸ hpasses)
    exact ⟨reports, hreports.length_eq.symm, hreport⟩
  · rw [(hprinted _ checkPaths_shelf).2 (by rw [collect_shelf]; decide)]
    decide
  · rw [ne_eq, hexit, checkPaths_shelf]
    rintro ⟨report, hreport, hnone⟩
    cases hreport
    exact hnone ⟨"b.txt", 2, 9, 2, .failed "refused"⟩ (by simp) "refused" rfl
  · obtain ⟨-, -, herror, -⟩ := checkPaths_concatenates shelf_ordered strict_walk_lawful ["b.txt", "gone.md"]
    obtain ⟨-, -, -, e, -, -, -, he⟩ := herror hgone
    exact ⟨e, he⟩

end SwiftForge.Docs
