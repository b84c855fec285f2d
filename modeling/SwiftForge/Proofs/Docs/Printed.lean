import SwiftForge.Proofs.Docs.Samples
import SwiftForge.Proofs.Docs.Verdicts
import SwiftForge.Proofs.Json.Number
import SwiftForge.Proofs.Layout.Blocks

/-! The printed report. Every finding has one line, whose end says what became of the sample, and the totals below the
    lines count them by their ends. -/

namespace SwiftForge

namespace Text

theorem not_of_mem_runsFrom {p : Char → Bool} {run cs word : List Char} (hrun : ∀ c ∈ run, p c = false)
    (h : word ∈ runsFrom p run cs) : ∀ c ∈ word, p c = false := by
  fun_induction runsFrom p run cs with
  | case1 => cases h
  | case2 run hne =>
    obtain rfl := List.mem_singleton.1 h
    exact fun c hc => hrun c (List.mem_reverse.1 hc)
  | case3 c rest hc ih => exact ih hrun h
  | case4 c rest hc ih => exact ih (by simpa using hc) h
  | case5 d run c rest hc ih =>
    rcases List.mem_cons.1 h with rfl | h
    · exact fun e he => hrun e (List.mem_reverse.1 he)
    · exact ih (by simp) h
  | case6 d run c rest hc ih => exact ih (List.forall_mem_cons.2 ⟨by simpa using hc, hrun⟩) h

end Text

namespace Docs

/-! ### Texts without line feeds -/

theorem Preparation.not_isBlank_of_importedModule? {line name : List Char} (h : importedModule? line = some name) :
    ∀ c ∈ name, Text.isBlank c = false := by
  have hwords : ∀ word ∈ (Text.words line).dropWhile fun word => word.head? == some '@', ∀ c ∈ word,
      Text.isBlank c = false := fun word hword =>
    Text.not_of_mem_runsFrom (by simp) ((List.dropWhile_sublist _).subset hword)
  unfold importedModule? at h
  split at h
  · rename_i word path rest heq
    rw [heq] at hwords
    split at h
    · cases h
    · split at h
      · obtain ⟨next, hnext, rfl⟩ := Option.map_eq_some_iff.1 h
        intro c hc
        exact hwords next (by simp [List.mem_of_mem_head? hnext]) c ((List.takeWhile_sublist _).subset hc)
      · cases h
        intro c hc
        exact hwords path (by simp) c ((List.takeWhile_sublist _).subset hc)
  · cases h

theorem Preparation.exists_import_of_error {safe : List String} {lines : List (List Char)} {name : String}
    (h : withoutImports safe lines = .error name) : ∃ line, importedModule? line = some name.toList := by
  induction lines with
  | nil => cases h
  | cons line lines ih =>
    rw [withoutImports] at h
    split at h
    · cases hrest : withoutImports safe lines with
      | ok kept =>
        rw [hrest] at h
        cases h
      | error other =>
        rw [hrest] at h
        cases h
        exact ih hrest
    · rename_i moduleName himport
      split at h
      · exact ih h
      · cases h
        exact ⟨line, by rw [himport, String.toList_ofList]⟩

theorem Preparation.feed_not_mem_of_skip {safe : List String} {body : String} {cause : SkipCause}
    (h : ofBody safe body = .skip cause) : '\n' ∉ cause.text.toList := by
  unfold ofBody at h
  split at h
  · rename_i name herror
    cases h
    obtain ⟨line, himport⟩ := exists_import_of_error herror
    have hname : '\n' ∉ name.toList := fun hfeed => by
      simpa [Text.isBlank] using not_isBlank_of_importedModule? himport '\n' hfeed
    simp [SkipCause.text, hname]
  · split at h
    · cases h
      decide
    · split at h
      · cases h
        decide
      · split at h
        · cases h
          decide
        · cases h

theorem feed_not_mem_intText (n : Nat) : '\n' ∉ (Decimal.intText n).toList := by
  intro h
  change '\n' ∈ (String.ofList (Decimal.digitChars n)).toList at h
  rw [String.toList_ofList] at h
  simpa using Reading.isDigit_digitChars h

theorem Sample.path_of_mem_extract {path text : String} {s : Sample} (h : s ∈ Sample.extract path text) :
    s.path = path := by
  obtain ⟨labels, hlabels⟩ := exists_labelsOf_iff text.toList
  obtain ⟨b, -, hshows⟩ := exists_shown (Sample.extract_shows ((hlabels labels).2 rfl)) h
  exact hshows.path

namespace Inspection

variable {i : Inspection} {s : Sample} {f : Finding}

theorem Skips.feed_not_mem {cause : SkipCause} (h : i.Skips s cause) : '\n' ∉ cause.text.toList := by
  rcases h with ⟨-, rfl⟩ | ⟨-, rfl⟩ | ⟨-, hskip⟩
  · decide
  · decide
  · exact Preparation.feed_not_mem_of_skip hskip

/-- The line of a finding is one line, unless the path of the document has several. -/
theorem Reports.feed_mem_text_iff (h : i.Reports s f) : '\n' ∈ f.text.toList ↔ '\n' ∈ s.path.toList := by
  have hstatus : '\n' ∉ f.outcome.status.toList := by
    cases houtcome : f.outcome with
    | passed => decide
    | failed diagnostics => simp [Outcome.status]
    | skipped cause => simp [Outcome.status, ((h.skipped_iff cause).1 houtcome).feed_not_mem]
  simp [Finding.text, Finding.place, h.path, hstatus, feed_not_mem_intText]

end Inspection

/-! ### Totals -/

/-- How many lines say that a sample passed. -/
def okLines (lines : List String) : Nat := lines.countP (" ... ok".toList <:+ ·.toList)

def failedLines (lines : List String) : Nat := lines.countP (" ... FAILED".toList <:+ ·.toList)

/-- How many lines give the cause of a skip. -/
def skippedLines (lines : List String) : Nat :=
  lines.countP fun line => " ... skipped (".toList <:+: line.toList ∧ [')'] <:+ line.toList

/-- The line with the totals of the lines for samples. -/
def totals (lines : List String) : String :=
  "doc samples: " ++ (if failedLines lines = 0 then "ok" else "FAILED") ++ ". " ++ Decimal.intText (okLines lines) ++
    " passed; " ++ Decimal.intText (failedLines lines) ++ " failed; " ++ Decimal.intText (skippedLines lines) ++
    " skipped"

theorem feed_not_mem_totals (lines : List String) : '\n' ∉ (totals lines).toList := by
  unfold totals
  simp only [String.toList_append, List.mem_append, not_or, feed_not_mem_intText]
  split <;> simp

namespace Finding

variable {f : Finding}

/-- The last character of a line tells the outcomes apart. -/
theorem getLast?_text (f : Finding) : f.text.toList.getLast? =
    match f.outcome with
    | .passed => some 'k'
    | .failed _ => some 'D'
    | .skipped _ => some ')' := by
  cases h : f.outcome with
  | passed => simp [text, h, Outcome.status, List.getLast?_append]
  | failed diagnostics => simp [text, h, Outcome.status, List.getLast?_append]
  | skipped cause =>
    have hparts : f.text.toList = (f.place ++ " ... skipped (" ++ cause.text).toList ++ [')'] := by
      simp [text, h, Outcome.status]
    rw [hparts, List.getLast?_concat]

theorem getLast?_of_suffix {last : Char} {ending : List Char} (h : ending ++ [last] <:+ f.text.toList) :
    f.text.toList.getLast? = some last := by
  obtain ⟨start, hstart⟩ := h
  rw [← hstart, ← List.append_assoc, List.getLast?_concat]

theorem ok_line_iff : " ... ok".toList <:+ f.text.toList ↔ f.outcome.isPassed = true := by
  constructor
  · intro h
    have hlast := @getLast?_of_suffix f 'k' " ... o".toList h
    rw [getLast?_text] at hlast
    cases houtcome : f.outcome <;> simp [houtcome, Outcome.isPassed] at hlast ⊢
  · intro h
    cases houtcome : f.outcome <;> simp [houtcome, Outcome.isPassed] at h
    exact ⟨f.place.toList, by simp [text, houtcome, Outcome.status]⟩

theorem failed_line_iff : " ... FAILED".toList <:+ f.text.toList ↔ f.outcome.isFailed = true := by
  constructor
  · intro h
    have hlast := @getLast?_of_suffix f 'D' " ... FAILE".toList h
    rw [getLast?_text] at hlast
    cases houtcome : f.outcome <;> simp [houtcome, Outcome.isFailed] at hlast ⊢
  · intro h
    cases houtcome : f.outcome <;> simp [houtcome, Outcome.isFailed] at h
    exact ⟨f.place.toList, by simp [text, houtcome, Outcome.status]⟩

theorem skipped_line_iff :
    " ... skipped (".toList <:+: f.text.toList ∧ [')'] <:+ f.text.toList ↔ f.outcome.isSkipped = true := by
  constructor
  · rintro ⟨-, h⟩
    have hlast := @getLast?_of_suffix f ')' [] h
    rw [getLast?_text] at hlast
    cases houtcome : f.outcome <;> simp [houtcome, Outcome.isSkipped] at hlast ⊢
  · intro h
    cases houtcome : f.outcome <;> simp [houtcome, Outcome.isSkipped] at h
    rename_i cause
    refine ⟨⟨f.place.toList, (cause.text ++ ")").toList, ?_⟩,
      (f.place ++ " ... skipped (" ++ cause.text).toList, ?_⟩ <;> simp [text, houtcome, Outcome.status]

end Finding

namespace Report

theorem okLines_eq (r : Report) : okLines (r.findings.map Finding.text) = r.passed := by
  rw [okLines, List.countP_map, passed]
  exact List.countP_congr fun f _ => by rw [Function.comp, decide_eq_true_iff, Finding.ok_line_iff]

theorem failedLines_eq (r : Report) : failedLines (r.findings.map Finding.text) = r.failed := by
  rw [failedLines, List.countP_map, failed]
  exact List.countP_congr fun f _ => by rw [Function.comp, decide_eq_true_iff, Finding.failed_line_iff]

theorem skippedLines_eq (r : Report) : skippedLines (r.findings.map Finding.text) = r.skipped := by
  rw [skippedLines, List.countP_map, skipped]
  exact List.countP_congr fun f _ => by rw [Function.comp, decide_eq_true_iff, Finding.skipped_line_iff]

/-- A report is printed as its lines, an empty line and their totals. -/
theorem text_eq (r : Report) : r.text =
    String.join ((r.findings.map Finding.text ++ ["", totals (r.findings.map Finding.text)]).map (· ++ "\n")) := by
  have hsuccess : r.isSuccess = true ↔ r.failed = 0 := beq_iff_eq
  have hhead : "\ndoc samples: " = "\n" ++ "doc samples: " := rfl
  rw [text, hhead]
  unfold totals
  simp only [okLines_eq, failedLines_eq, skippedLines_eq, hsuccess, summary, List.map_append, List.map_map,
    List.map_cons, List.map_nil, String.join_append, String.join_cons, String.join_nil, String.append_assoc,
    Function.comp_def, String.empty_append, String.append_empty]

/-- Where no finding has a line feed in its line, these are the lines of what is printed. -/
theorem physicalLines_text {r : Report} (h : ∀ f ∈ r.findings, '\n' ∉ f.text.toList) :
    Text.physicalLines r.text = r.findings.map Finding.text ++ ["", totals (r.findings.map Finding.text), ""] := by
  rw [text_eq, Text.physicalLines_join, List.append_assoc]
  · rfl
  · simp only [List.forall_mem_append, List.forall_mem_map, List.forall_mem_cons]
    exact ⟨h, by simp, feed_not_mem_totals _, by simp⟩

end Report

end Docs

end SwiftForge
