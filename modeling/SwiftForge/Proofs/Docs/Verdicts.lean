import Mathlib.Data.List.Forall2
import SwiftForge.Docs.Inspection

/-! What an inspection reports. A document is gone through sample by sample: the checker sees the examples that can be
    made ready, in their order and as they were prepared, and nothing else, and every sample of interest gets a finding
    with its own place and the outcome that the checker or the preparation gives it. The first failure to run the
    checker ends everything. -/

namespace SwiftForge.Docs

/-- What two lists in step say of each pair, they say of all their members. -/
theorem forall_mem_iff_of_forall₂ {α β : Type} {R : α → β → Prop} {P : α → Prop} {Q : β → Prop} {as : List α}
    {bs : List β} (h : List.Forall₂ R as bs) (hR : ∀ a b, R a b → (P a ↔ Q b)) : (∀ a ∈ as, P a) ↔ ∀ b ∈ bs, Q b := by
  induction h with
  | nil => simp
  | cons hab hrest ih => rw [List.forall_mem_cons, List.forall_mem_cons, hR _ _ hab, ih]

/-- Where not all members of a list have a property, there is a first one without it. -/
theorem exists_first_not {α : Type} {P : α → Prop} {as : List α} (h : ¬ ∀ a ∈ as, P a) :
    ∃ before a after, as = before ++ a :: after ∧ (∀ b ∈ before, P b) ∧ ¬ P a := by
  classical
  have hsome : (as.find? fun a => ¬ P a).isSome := by simpa using h
  obtain ⟨a, ha⟩ := Option.isSome_iff_exists.1 hsome
  obtain ⟨hnot, before, after, rfl, hbefore⟩ := List.find?_eq_some_iff_append.1 ha
  exact ⟨before, a, after, rfl, by simpa using hbefore, by simpa using hnot⟩

/-! ### Runs one after the other -/

namespace Run

theorem append_of_failure {a : Run} {e : RunFailure} (h : a.failure = some e) (b : Run) : a ++ b = a := by
  change append a b = a
  rw [append, h]

theorem append_of_no_failure {a : Run} (h : a.failure = none) (b : Run) :
    a ++ b =
      { findings := a.findings ++ b.findings, consulted := a.consulted ++ b.consulted, failure := b.failure } := by
  change append a b = _
  rw [append, h]

theorem empty_append (a : Run) : ({} : Run) ++ a = a := append_of_no_failure rfl a

theorem append_assoc (a b c : Run) : a ++ b ++ c = a ++ (b ++ c) := by
  cases ha : a.failure with
  | some e => rw [append_of_failure ha, append_of_failure ha, append_of_failure ha]
  | none =>
    cases hb : b.failure with
    | some e =>
      have hab : (a ++ b).failure = some e := by rw [append_of_no_failure ha, hb]
      rw [append_of_failure hb, append_of_failure hab]
    | none =>
      have hab : (a ++ b).failure = none := by rw [append_of_no_failure ha, hb]
      rw [append_of_no_failure hab, append_of_no_failure ha, append_of_no_failure hb, append_of_no_failure ha]
      simp only [List.append_assoc]

theorem sequence_append (before after : List Run) : sequence (before ++ after) = sequence before ++ sequence after := by
  induction before with
  | nil => exact (empty_append _).symm
  | cons r before ih => rw [List.cons_append, sequence, sequence, ih, append_assoc]

end Run

namespace Report

/-- Every finding is counted once. -/
theorem passed_add_failed_add_skipped (r : Report) : r.passed + r.failed + r.skipped = r.findings.length := by
  have hone : ∀ o : Outcome,
      (if o.isPassed then 1 else 0) + (if o.isFailed then 1 else 0) + (if o.isSkipped then 1 else 0) = 1 := by
    intro o
    cases o <;> rfl
  unfold passed failed skipped
  induction r.findings with
  | nil => rfl
  | cons f rest ih =>
    have hf := hone f.outcome
    simp only [List.countP_cons, List.length_cons]
    omega

theorem isSuccess_iff {r : Report} :
    r.isSuccess = true ↔ ∀ f ∈ r.findings, ∀ diagnostics, f.outcome ≠ .failed diagnostics := by
  rw [isSuccess, failed, beq_iff_eq, List.countP_eq_zero]
  refine forall₂_congr fun f _ => ?_
  cases f.outcome <;> simp [Outcome.isFailed]

end Report

/-! ### One sample -/

namespace Inspection

/-- The checker cannot be run on a source. -/
def CannotRun (i : Inspection) (source : String) : Prop :=
  ∃ program cause, i.checker source = .error (.launch program cause)

/-- What a sample has for the checker: it is an example and can be made ready. -/
def source? (i : Inspection) (s : Sample) : Option String :=
  match s.content?, Preparation.ofBody i.settings.safeImports s.body with
  | some .codeExample, .ready source => some source
  | _, _ => none

/-- A sample is passed over for a cause: it is a manifest or holds shell commands, or preparing it gives the cause. -/
def Skips (i : Inspection) (s : Sample) (cause : SkipCause) : Prop :=
  s.content? = some .manifest ∧ cause = .manifest ∨ s.content? = some .shell ∧ cause = .shell ∨
    s.content? = some .codeExample ∧ Preparation.ofBody i.settings.safeImports s.body = .skip cause

/-- A finding is on a sample and says what became of it. -/
structure Reports (i : Inspection) (s : Sample) (f : Finding) : Prop where
  path : f.path = s.path
  line : f.line = s.line
  offset : f.offset = s.offset
  len : f.len = s.len
  passed_iff : f.outcome = .passed ↔ ∃ source, i.source? s = some source ∧ i.checker source = .ok ()
  failed_iff : ∀ diagnostics, f.outcome = .failed diagnostics ↔ ∃ source message output,
    i.source? s = some source ∧ i.checker source = .error (.rejected message output) ∧
      diagnostics = if Text.trim output.toList = [] then message else output
  skipped_iff : ∀ cause, f.outcome = .skipped cause ↔ i.Skips s cause

variable {i : Inspection} {s : Sample}

theorem source?_eq_some_iff {source : String} : i.source? s = some source ↔
    s.content? = some .codeExample ∧ Preparation.ofBody i.settings.safeImports s.body = .ready source := by
  unfold source?
  split <;> simp_all

theorem diagnostics_eq (message output : String) :
    diagnostics message output = if Text.trim output.toList = [] then message else output := by
  simp only [diagnostics, List.isEmpty_iff]

/-- A sample in another language leaves no trace. -/
theorem checkSample_of_ignored (h : s.content? = none) : i.checkSample s = {} := by
  rw [checkSample, h]

/-- A sample on which the checker fails to run ends the inspection. -/
theorem checkSample_of_cannotRun {source program cause : String} (h : i.source? s = some source)
    (hrun : i.checker source = .error (.launch program cause)) :
    i.checkSample s = { consulted := [source], failure := some (.checker (.launch program cause)) } := by
  obtain ⟨hcontent, hready⟩ := source?_eq_some_iff.1 h
  simp only [checkSample, hcontent, hready, hrun]

/-- A sample of interest that has nothing for the checker is passed over for one cause. -/
theorem exists_skip (hcontent : s.content? ≠ none) (hsource : i.source? s = none) :
    ∃ cause, (∀ c, i.Skips s c ↔ c = cause) ∧ i.checkSample s = { findings := [findingOf s (.skipped cause)] } := by
  unfold Skips
  cases hkind : s.content? with
  | none => exact absurd hkind hcontent
  | some kind =>
    cases kind with
    | manifest => exact ⟨.manifest, by simp, by simp [checkSample, hkind]⟩
    | shell => exact ⟨.shell, by simp, by simp [checkSample, hkind]⟩
    | codeExample =>
      cases hready : Preparation.ofBody i.settings.safeImports s.body with
      | skip cause => exact ⟨cause, by simp [eq_comm], by simp [checkSample, hkind, hready]⟩
      | ready source =>
        rw [source?_eq_some_iff.2 ⟨hkind, hready⟩] at hsource
        cases hsource

/-- A sample that has a source for the checker is not passed over. -/
theorem not_skips {source : String} (h : i.source? s = some source) (cause : SkipCause) : ¬ i.Skips s cause := by
  obtain ⟨hcontent, hready⟩ := source?_eq_some_iff.1 h
  simp [Skips, hcontent, hready]

/-- Any other sample gets one finding, after the checker has seen what it has for it. -/
theorem exists_checkSample (hcontent : s.content? ≠ none)
    (hrun : ∀ source, i.source? s = some source → ¬ i.CannotRun source) :
    ∃ f, i.Reports s f ∧ i.checkSample s = { findings := [f], consulted := (i.source? s).toList } := by
  cases hsource : i.source? s with
  | none =>
    obtain ⟨cause, hcause, hcheck⟩ := exists_skip hcontent hsource
    refine ⟨findingOf s (.skipped cause), ⟨rfl, rfl, rfl, rfl, ?_, ?_, fun c => ?_⟩, hcheck⟩
    · simp [findingOf, hsource]
    · simp [findingOf, hsource]
    · rw [hcause c, findingOf, Outcome.skipped.injEq, eq_comm]
  | some source =>
    obtain ⟨hkind, hready⟩ := source?_eq_some_iff.1 hsource
    cases hcheck : i.checker source with
    | ok u =>
      refine ⟨findingOf s .passed, ⟨rfl, rfl, rfl, rfl, ?_, ?_, fun c => ?_⟩, ?_⟩
      · simp [findingOf, hsource, hcheck]
      · simp [findingOf, hsource, hcheck]
      · simp [findingOf, not_skips hsource c]
      · simp [checkSample, hkind, hready, hcheck]
    | error fault =>
      cases fault with
      | launch program cause => exact absurd ⟨program, cause, hcheck⟩ (hrun source hsource)
      | rejected message output =>
        refine ⟨findingOf s (.failed (diagnostics message output)),
          ⟨rfl, rfl, rfl, rfl, ?_, fun text => ?_, fun c => ?_⟩, ?_⟩
        · simp [findingOf, hsource, hcheck]
        · constructor
          · rintro ⟨⟩
            exact ⟨source, message, output, hsource, hcheck, diagnostics_eq message output⟩
          · rintro ⟨_, m, o, hsource', hcheck', rfl⟩
            obtain rfl := Option.some.inj (hsource.symm.trans hsource')
            rw [hcheck] at hcheck'
            cases hcheck'
            exact congrArg Outcome.failed (diagnostics_eq message output)
        · simp [findingOf, not_skips hsource c]
        · simp [checkSample, hkind, hready, hcheck]

/-! ### All samples -/

theorem source?_of_ignored (h : s.content? = none) : i.source? s = none := by
  rw [source?, h]

/-- Samples on which the checker can be run get their findings, in order. -/
theorem exists_sequence {samples : List Sample} (h : ∀ source ∈ samples.filterMap i.source?, ¬ i.CannotRun source) :
    ∃ findings, List.Forall₂ i.Reports (samples.filter fun s => s.content?.isSome) findings ∧
      Run.sequence (samples.map i.checkSample) = { findings, consulted := samples.filterMap i.source? } := by
  induction samples with
  | nil => exact ⟨[], .nil, rfl⟩
  | cons s samples ih =>
    obtain ⟨findings, hfindings, hrest⟩ := ih fun source hsource => h source (by
      rw [List.filterMap_cons]
      split
      · exact hsource
      · exact List.mem_cons_of_mem _ hsource)
    rw [List.map_cons, Run.sequence, hrest]
    by_cases hcontent : s.content? = none
    · refine ⟨findings, ?_, ?_⟩
      · rwa [List.filter_cons_of_neg (by simp [hcontent])]
      · rw [checkSample_of_ignored hcontent, List.filterMap_cons_none (source?_of_ignored hcontent)]
        rfl
    · have hrun : ∀ source, i.source? s = some source → ¬ i.CannotRun source := fun source hsource =>
        h source (by rw [List.filterMap_cons_some hsource]; exact List.mem_cons_self)
      obtain ⟨f, hf, hcheck⟩ := exists_checkSample hcontent hrun
      refine ⟨f :: findings, ?_, ?_⟩
      · rw [List.filter_cons_of_pos (by simpa [Option.isSome_iff_ne_none] using hcontent)]
        exact .cons hf hfindings
      · rw [hcheck, Run.append_of_no_failure rfl, List.filterMap_cons]
        cases i.source? s <;> rfl

/-- The first sample on which the checker cannot be run is the last one that it sees. -/
theorem sequence_of_cannotRun {samples : List Sample} {before after : List String} {source program cause : String}
    (hsources : samples.filterMap i.source? = before ++ source :: after)
    (hbefore : ∀ earlier ∈ before, ¬ i.CannotRun earlier) (hrun : i.checker source = .error (.launch program cause)) :
    (Run.sequence (samples.map i.checkSample)).consulted = before ++ [source] ∧
      (Run.sequence (samples.map i.checkSample)).failure = some (.checker (.launch program cause)) := by
  obtain ⟨first, rest, rfl, hfirst, hrest⟩ := List.filterMap_eq_append_iff.1 hsources
  obtain ⟨skipped, s, later, rfl, hskipped, hs, -⟩ := List.filterMap_eq_cons_iff.1 hrest
  have hnone : (first ++ skipped).filterMap i.source? = before := by
    rw [List.filterMap_append, hfirst, List.filterMap_eq_nil_iff.2 hskipped, List.append_nil]
  obtain ⟨findings, -, hsequence⟩ := @exists_sequence i (first ++ skipped) (hnone ▸ hbefore)
  rw [← List.append_assoc, List.map_append, Run.sequence_append, hsequence, hnone, List.map_cons, Run.sequence,
    checkSample_of_cannotRun hs hrun, Run.append_of_no_failure rfl, Run.append_of_failure rfl]
  exact ⟨rfl, rfl⟩

/-- Nothing failed exactly if the checker refused nothing. -/
theorem isSuccess_iff {samples : List Sample} {findings : List Finding}
    (h : List.Forall₂ i.Reports (samples.filter fun s => s.content?.isSome) findings) :
    ({ findings } : Report).isSuccess = true ↔ ∀ source ∈ samples.filterMap i.source?,
      ∀ message output, i.checker source ≠ .error (.rejected message output) := by
  have hfailed : ∀ {s : Sample} {f : Finding}, i.Reports s f →
      ((∀ source, i.source? s = some source → ∀ message output, i.checker source ≠ .error (.rejected message output)) ↔
        ∀ diagnostics, f.outcome ≠ .failed diagnostics) := by
    intro s f hf
    constructor
    · intro hs diagnostics hdiagnostics
      obtain ⟨source, message, output, hsource, hcheck, -⟩ := (hf.failed_iff diagnostics).1 hdiagnostics
      exact hs source hsource message output hcheck
    · intro hf' source hsource message output hcheck
      exact hf' _ ((hf.failed_iff _).2 ⟨source, message, output, hsource, hcheck, rfl⟩)
  rw [Report.isSuccess_iff, ← forall_mem_iff_of_forall₂ h fun _ _ => hfailed]
  simp only [List.mem_filter, List.mem_filterMap, forall_exists_index, and_imp]
  constructor
  · intro hall source s hs hsource
    exact hall s hs (by simp [(source?_eq_some_iff.1 hsource).1]) source hsource
  · intro hall s hs _ source hsource
    exact hall source s hs hsource

end Inspection

/-- An inspection of a document asks the checker about each example that can be made ready, once, in order and as it was
    prepared, and about nothing else. If the checker can always be run, every sample of interest gets a finding, with
    its place and with what became of it, each is counted once, and the inspection is a success exactly if the checker
    refused nothing. Where the checker cannot be run for the first time, the inspection ends with that failure, without
    a report, and asks no more. -/
theorem checkText_reports (i : Inspection) (path text : String) :
    ((∀ source ∈ (Sample.extract path text).filterMap i.source?, ¬ i.CannotRun source) →
      (i.checkText path text).consulted = (Sample.extract path text).filterMap i.source? ∧
      ∃ report, (i.checkText path text).report = .ok report ∧
        List.Forall₂ i.Reports ((Sample.extract path text).filter fun s => s.content?.isSome) report.findings ∧
        report.passed + report.failed + report.skipped = report.findings.length ∧
        (report.isSuccess = true ↔ ∀ source ∈ (Sample.extract path text).filterMap i.source?,
          ∀ message output, i.checker source ≠ .error (.rejected message output))) ∧
    ∀ before source after program cause, (Sample.extract path text).filterMap i.source? = before ++ source :: after →
      (∀ earlier ∈ before, ¬ i.CannotRun earlier) → i.checker source = .error (.launch program cause) →
      (i.checkText path text).consulted = before ++ [source] ∧
        (i.checkText path text).report = .error (.checker (.launch program cause)) := by
  refine ⟨fun h => ?_, fun before source after program cause hsources hbefore hrun => ?_⟩
  · obtain ⟨findings, hfindings, hsequence⟩ := Inspection.exists_sequence h
    rw [Inspection.checkText, hsequence]
    exact ⟨rfl, { findings }, rfl, hfindings, Report.passed_add_failed_add_skipped _,
      Inspection.isSuccess_iff hfindings⟩
  · obtain ⟨hconsulted, hfailure⟩ := Inspection.sequence_of_cannotRun hsources hbefore hrun
    refine ⟨hconsulted, ?_⟩
    rw [Run.report, Inspection.checkText, hfailure]

/-- A checker that refuses one source and cannot be run on another. -/
def strict : Inspection where
  checker source :=
    if source = "b\n" then .error (.rejected "refused" " \n")
    else if source = "c\n" then .error (.launch "swiftc" "not found")
    else .ok ()

def refusedText : String := "```swift\na\n```\n```sh\nls\n```\n~~~swift\nb\n~~~\n"

def stoppedText : String := "```swift\na\n```\n```swift\nc\n```\n```swift\nb\n```\n"

theorem checkText_reports_strict :
    ((strict.checkText "a.md" refusedText).consulted = ["a\n", "b\n"] ∧
      ∃ report, (strict.checkText "a.md" refusedText).report = .ok report ∧
        report.passed + report.failed + report.skipped = report.findings.length ∧ report.isSuccess = false) ∧
    (strict.checkText "a.md" stoppedText).consulted = ["a\n", "c\n"] ∧
      (strict.checkText "a.md" stoppedText).report = .error (.checker (.launch "swiftc" "not found")) := by
  have hrefused : (Sample.extract "a.md" refusedText).filterMap strict.source? = ["a\n", "b\n"] := by decide
  have hstopped : (Sample.extract "a.md" stoppedText).filterMap strict.source? = ["a\n", "c\n", "b\n"] := by decide
  refine ⟨?_, ?_⟩
  · have hrun : ∀ source ∈ (Sample.extract "a.md" refusedText).filterMap strict.source?, ¬ strict.CannotRun source := by
      rw [hrefused]
      simp [Inspection.CannotRun, strict]
    obtain ⟨hconsulted, report, hreport, -, htotal, hsuccess⟩ := (checkText_reports strict "a.md" refusedText).1 hrun
    refine ⟨hconsulted.trans hrefused, report, hreport, htotal, ?_⟩
    rw [Bool.eq_false_iff, ne_eq, hsuccess, hrefused]
    intro hall
    exact hall "b\n" (by simp) "refused" " \n" rfl
  · exact (checkText_reports strict "a.md" stoppedText).2 ["a\n"] "c\n" ["b\n"] "swiftc" "not found" hstopped
      (by simp [Inspection.CannotRun, strict]) rfl

end SwiftForge.Docs
