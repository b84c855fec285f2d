import SwiftForge.Proofs.Docs.Imports
import SwiftForge.Proofs.Docs.Verdicts
import SwiftForge.Proofs.Text.Lines

/-! Preparing samples. The first import of a module that is not safe decides; without one the lines that are no imports
    do, an entry point before an elision and that before emptiness. What is ready is these lines as they are, so
    whatever may not stand in a prepared text is looked for once more, in its own lines, and not found. -/

namespace SwiftForge.Docs.Preparation

variable {safe : List String} {lines : List (List Char)}

/-- The lines that are not taken for imports. -/
def otherLines (lines : List (List Char)) : List (List Char) := lines.filter fun line => ¬IsImport line

/-- All imports of these lines are of safe modules. -/
def SafeImports (safe : List String) (lines : List (List Char)) : Prop :=
  ∀ line ∈ lines, ∀ name, Imports line name → name ∈ safe

/-- Lines as they are written: each of them with a line feed behind it. -/
def written (lines : List (List Char)) : String := String.ofList (lines.flatMap fun line => line ++ ['\n'])

/-- What lines are prepared as. -/
inductive Verdict (safe : List String) (lines : List (List Char)) : Preparation → Prop where
  /-- The first import that is not safe. -/
  | foreignImport {before line after name} : lines = before ++ line :: after → SafeImports safe before →
    Imports line name → name ∉ safe → Verdict safe lines (.skip (.foreignImport name))
  | entryPoint : SafeImports safe lines → (∃ line ∈ otherLines lines, isEntryPoint line = true) →
    Verdict safe lines (.skip .entryPoint)
  | fragment : SafeImports safe lines → (∀ line ∈ otherLines lines, isEntryPoint line = false) →
    (∃ line ∈ otherLines lines, isElision line = true) → Verdict safe lines (.skip .fragment)
  | empty : SafeImports safe lines → (∀ line ∈ otherLines lines, isEntryPoint line = false) →
    (∀ line ∈ otherLines lines, isElision line = false) → (∀ line ∈ otherLines lines, isBlankLine line = true) →
    Verdict safe lines (.skip .empty)
  | ready : SafeImports safe lines → (∀ line ∈ otherLines lines, isEntryPoint line = false) →
    (∀ line ∈ otherLines lines, isElision line = false) → (∃ line ∈ otherLines lines, isBlankLine line = false) →
    Verdict safe lines (.ready (written (otherLines lines)))

/-! ### Imports -/

theorem otherLines_cons_of_import {line : List Char} (h : IsImport line) (lines : List (List Char)) :
    otherLines (line :: lines) = otherLines lines := List.filter_cons_of_neg (by simpa using h)

theorem otherLines_cons_of_other {line : List Char} (h : ¬IsImport line) (lines : List (List Char)) :
    otherLines (line :: lines) = line :: otherLines lines := List.filter_cons_of_pos (by simpa using h)

theorem withoutImports_cons_of_safe {line : List Char} (h : IsImport line)
    (hsafe : ∀ name, Imports line name → name ∈ safe) (lines : List (List Char)) :
    withoutImports safe (line :: lines) = withoutImports safe lines := by
  obtain ⟨name, hname⟩ := h
  rw [withoutImports, importedModule?_eq_some_iff.2 hname]
  exact if_pos (by simpa using hsafe name hname)

theorem withoutImports_cons_of_other {line : List Char} (h : ¬IsImport line) (lines : List (List Char)) :
    withoutImports safe (line :: lines) = (withoutImports safe lines).map (line :: ·) := by
  rw [withoutImports, importedModule?_eq_none_iff.2 h]

theorem withoutImports_cons_of_foreign {line : List Char} {name : String} (h : Imports line name)
    (hforeign : name ∉ safe) (lines : List (List Char)) : withoutImports safe (line :: lines) = .error name := by
  rw [withoutImports, importedModule?_eq_some_iff.2 h]
  exact (if_neg (by simpa using hforeign)).trans (by rw [String.ofList_toList])

/-- Safe imports are dropped, whatever becomes of the lines behind them. -/
theorem withoutImports_append {before : List (List Char)} (h : SafeImports safe before) (after : List (List Char)) :
    withoutImports safe (before ++ after) = (withoutImports safe after).map (otherLines before ++ ·) := by
  induction before with
  | nil => cases hafter : withoutImports safe after <;> simp [hafter, otherLines, Except.map]
  | cons line before ih =>
    obtain ⟨hline, hbefore⟩ := List.forall_mem_cons.1 h
    by_cases himport : IsImport line
    · rw [List.cons_append, withoutImports_cons_of_safe himport hline, ih hbefore, otherLines_cons_of_import himport]
    · rw [List.cons_append, withoutImports_cons_of_other himport, ih hbefore, otherLines_cons_of_other himport]
      cases withoutImports safe after <;> rfl

theorem withoutImports_of_safe (h : SafeImports safe lines) : withoutImports safe lines = .ok (otherLines lines) := by
  have happend := withoutImports_append h []
  rwa [List.append_nil, withoutImports, Except.map, List.append_nil] at happend

theorem withoutImports_of_foreign {before after : List (List Char)} {line : List Char} {name : String}
    (h : SafeImports safe before) (hname : Imports line name) (hforeign : name ∉ safe) :
    withoutImports safe (before ++ line :: after) = .error name := by
  rw [withoutImports_append h, withoutImports_cons_of_foreign hname hforeign]
  rfl

/-- Either all imports are safe or there is a first one that is not. -/
theorem safeImports_or_exists (safe : List String) (lines : List (List Char)) : SafeImports safe lines ∨
    ∃ before line after name, lines = before ++ line :: after ∧ SafeImports safe before ∧ Imports line name ∧
      name ∉ safe := by
  by_cases h : SafeImports safe lines
  · exact .inl h
  · obtain ⟨before, line, after, hlines, hbefore, hnot⟩ := exists_first_not h
    obtain ⟨name, hname⟩ := not_forall.1 hnot
    obtain ⟨hname, hforeign⟩ := Classical.not_imp.1 hname
    exact .inr ⟨before, line, after, name, hlines, hbefore, hname, hforeign⟩

theorem SafeImports.mono {wider : List String} (h : SafeImports safe lines) (hsub : ∀ name ∈ safe, name ∈ wider) :
    SafeImports wider lines := fun line hline name hname => hsub name (h line hline name hname)

/-! ### The verdict -/

theorem ofBody_of_safe {body : String} (h : SafeImports safe (Text.lines body.toList)) :
    ofBody safe body =
      if (otherLines (Text.lines body.toList)).any isEntryPoint then .skip .entryPoint
      else if (otherLines (Text.lines body.toList)).any isElision then .skip .fragment
      else if (otherLines (Text.lines body.toList)).all isBlankLine then .skip .empty
      else .ready (written (otherLines (Text.lines body.toList))) := by
  rw [ofBody, withoutImports_of_safe h]
  rfl

theorem Verdict.ofBody_eq {body : String} {p : Preparation} (h : Verdict safe (Text.lines body.toList) p) :
    ofBody safe body = p := by
  cases h with
  | foreignImport hlines hbefore hname hforeign =>
    rw [ofBody, hlines, withoutImports_of_foreign hbefore hname hforeign]
  | entryPoint hsafe hentry => rw [ofBody_of_safe hsafe, if_pos (by simpa using hentry)]
  | fragment hsafe hentry helision =>
    rw [ofBody_of_safe hsafe, if_neg (by simpa using hentry), if_pos (by simpa using helision)]
  | empty hsafe hentry helision hblank =>
    rw [ofBody_of_safe hsafe, if_neg (by simpa using hentry), if_neg (by simpa using helision),
      if_pos (by simpa using hblank)]
  | ready hsafe hentry helision hblank =>
    rw [ofBody_of_safe hsafe, if_neg (by simpa using hentry), if_neg (by simpa using helision),
      if_neg (by simpa using hblank)]

theorem exists_verdict (safe : List String) (lines : List (List Char)) : ∃ p, Verdict safe lines p := by
  rcases safeImports_or_exists safe lines with hsafe | ⟨before, line, after, name, hlines, hbefore, hname, hforeign⟩
  · by_cases hentry : ∃ line ∈ otherLines lines, isEntryPoint line = true
    · exact ⟨_, .entryPoint hsafe hentry⟩
    · by_cases helision : ∃ line ∈ otherLines lines, isElision line = true
      · exact ⟨_, .fragment hsafe (by simpa using hentry) helision⟩
      · by_cases hblank : ∃ line ∈ otherLines lines, isBlankLine line = false
        · exact ⟨_, .ready hsafe (by simpa using hentry) (by simpa using helision) hblank⟩
        · exact ⟨_, .empty hsafe (by simpa using hentry) (by simpa using helision) (by simpa using hblank)⟩
  · exact ⟨_, .foreignImport hlines hbefore hname hforeign⟩

theorem ofBody_eq_iff {body : String} {p : Preparation} :
    ofBody safe body = p ↔ Verdict safe (Text.lines body.toList) p := by
  refine ⟨?_, Verdict.ofBody_eq⟩
  rintro rfl
  obtain ⟨p, hp⟩ := exists_verdict safe (Text.lines body.toList)
  rwa [hp.ofBody_eq]

/-- With more modules safe the verdict stays, unless it was a foreign import. -/
theorem Verdict.mono {wider : List String} {p : Preparation} (h : Verdict safe lines p)
    (hsub : ∀ name ∈ safe, name ∈ wider) (hp : ∀ name, p ≠ .skip (.foreignImport name)) : Verdict wider lines p := by
  cases h with
  | foreignImport => exact absurd rfl (hp _)
  | entryPoint hsafe hentry => exact .entryPoint (hsafe.mono hsub) hentry
  | fragment hsafe hentry helision => exact .fragment (hsafe.mono hsub) hentry helision
  | empty hsafe hentry helision hblank => exact .empty (hsafe.mono hsub) hentry helision hblank
  | ready hsafe hentry helision hblank => exact .ready (hsafe.mono hsub) hentry helision hblank

/-- The list of safe modules counts as a set only. -/
theorem Verdict.congr {other : List String} {p : Preparation} (h : Verdict safe lines p)
    (hsame : ∀ name, name ∈ safe ↔ name ∈ other) : Verdict other lines p := by
  by_cases hp : ∃ name, p = .skip (.foreignImport name)
  · obtain ⟨name, rfl⟩ := hp
    obtain ⟨hlines, hbefore, hname, hforeign⟩ := h
    exact .foreignImport hlines (hbefore.mono fun name => (hsame name).1) hname fun hmem => hforeign ((hsame _).2 hmem)
  · exact h.mono (fun name => (hsame name).1) (not_exists.1 hp)

/-! ### What is ready -/

section

variable {c : Char}

theorem importedModule?_append_blank (hc : Text.isBlank c = true) (line : List Char) :
    importedModule? (line ++ [c]) = importedModule? line := by
  rw [importedModule?, importedModule?, Text.words_append_blank hc, Text.words_nil, List.append_nil]

theorem isElision_append_blank (hc : Text.isBlank c = true) (line : List Char) :
    isElision (line ++ [c]) = isElision line := by
  rw [isElision, isElision, Text.trim_append_blank hc]

theorem isBlankLine_append_blank (hc : Text.isBlank c = true) (line : List Char) :
    isBlankLine (line ++ [c]) = isBlankLine line := by
  rw [isBlankLine, isBlankLine, Text.trim_append_blank hc]

theorem isEntryPoint_append {line : List Char} (h : isEntryPoint line = true) (more : List Char) :
    isEntryPoint (line ++ more) = true := by
  have hmain : "@main".toList <+: Text.trimStart line := by simpa [isEntryPoint, Sample.startsWith] using h
  have hne : (line.dropWhile Text.isBlank).isEmpty = false := by
    rw [List.isEmpty_eq_false_iff]
    rintro hnil
    rw [Text.trimStart, hnil] at hmain
    exact absurd hmain (by decide)
  rw [isEntryPoint, Text.trimStart, List.dropWhile_append, hne]
  simpa [Sample.startsWith, Text.trimStart] using hmain.trans (List.prefix_append _ more)

end

/-- A line as it is read in a written text, which may be one carriage return shorter, is no import, no entry point and
    no elision if the line is none, and it is blank if the line is. -/
theorem reading_of_line (line : List Char) :
    (IsImport (Text.withoutEnding (line ++ ['\n'])) ↔ IsImport line) ∧
      (isEntryPoint line = false → isEntryPoint (Text.withoutEnding (line ++ ['\n'])) = false) ∧
      isElision (Text.withoutEnding (line ++ ['\n'])) = isElision line ∧
      isBlankLine (Text.withoutEnding (line ++ ['\n'])) = isBlankLine line := by
  rcases Text.withoutEnding_feed line with heq | heq
  · simp [heq]
  · generalize Text.withoutEnding (line ++ ['\n']) = short at heq
    subst heq
    have hreturn : Text.isBlank '\r' = true := rfl
    refine ⟨?_, fun h => ?_, (isElision_append_blank hreturn _).symm, (isBlankLine_append_blank hreturn _).symm⟩
    · rw [← isSome_importedModule?_iff, ← isSome_importedModule?_iff, importedModule?_append_blank hreturn]
    · by_contra hentry
      rw [isEntryPoint_append (by simpa using hentry)] at h
      cases h

theorem lines_written (h : ∀ line ∈ lines, '\n' ∉ line) :
    Text.lines (written lines).toList = lines.map fun line => Text.withoutEnding (line ++ ['\n']) := by
  rw [Text.lines, written, String.toList_ofList, Text.terminatedLines_flatMap h, List.map_map]
  rfl

theorem mem_otherLines {line : List Char} : line ∈ otherLines lines ↔ line ∈ lines ∧ ¬IsImport line := by
  rw [otherLines, List.mem_filter, decide_eq_true_eq]

/-- The lines of a text that can go to the checker. -/
structure Checkable (lines : List (List Char)) : Prop where
  noImport : ∀ line ∈ lines, ¬IsImport line
  noEntryPoint : ∀ line ∈ lines, isEntryPoint line = false
  noElision : ∀ line ∈ lines, isElision line = false
  notBlank : ∃ line ∈ lines, isBlankLine line = false

theorem checkable_of_ready {body source : String} (h : ofBody safe body = .ready source) :
    Checkable (Text.lines source.toList) := by
  cases ofBody_eq_iff.1 h with
  | ready hsafe hentry helision hblank =>
    have hfeed : ∀ line ∈ otherLines (Text.lines body.toList), '\n' ∉ line := fun line hline =>
      Text.feed_not_mem_lines (mem_otherLines.1 hline).1
    rw [lines_written hfeed]
    refine ⟨?_, ?_, ?_, ?_⟩
    · rw [List.forall_mem_map]
      exact fun line hline => (not_congr (reading_of_line line).1).2 (mem_otherLines.1 hline).2
    · rw [List.forall_mem_map]
      exact fun line hline => (reading_of_line line).2.1 (hentry line hline)
    · rw [List.forall_mem_map]
      exact fun line hline => (reading_of_line line).2.2.1.trans (helision line hline)
    · obtain ⟨line, hline, hnot⟩ := hblank
      exact ⟨_, List.mem_map_of_mem hline, (reading_of_line line).2.2.2.trans hnot⟩

/-- Preparation gives the verdict on the lines of the body: the first import that is not safe, or else an entry point,
    an elision or emptiness among the lines that are no imports, or else these lines, which can go to the checker as
    they are written. More safe modules change nothing but a foreign import, and of their list only the set of its
    members counts. -/
theorem ofBody_verdict (safe : List String) (body : String) :
    (∀ p, ofBody safe body = p ↔ Verdict safe (Text.lines body.toList) p) ∧
      (∀ source, ofBody safe body = .ready source → Checkable (Text.lines source.toList)) ∧
      (∀ wider : List String, (∀ name ∈ safe, name ∈ wider) →
        (∀ name, ofBody safe body ≠ .skip (.foreignImport name)) → ofBody wider body = ofBody safe body) ∧
      ∀ other : List String, (∀ name, name ∈ safe ↔ name ∈ other) → ofBody other body = ofBody safe body := by
  have hverdict : Verdict safe (Text.lines body.toList) (ofBody safe body) := ofBody_eq_iff.1 rfl
  exact ⟨fun p => ofBody_eq_iff, fun source => checkable_of_ready,
    fun wider hsub hforeign => (hverdict.mono hsub hforeign).ofBody_eq,
    fun other hsame => (hverdict.congr hsame).ofBody_eq⟩

/-- Two imports with an attribute, a kind and a member, a carriage return, and a line of code. -/
def importing : String :=
  "@testable import Swiftwright.Core\r\nimport class Foundation.NSString // text\nlet importer = 1\r\n"

theorem ready_importing : ofBody ["Foundation", "Swiftwright"] importing = .ready "let importer = 1\n" := by
  decide +kernel

theorem ofBody_verdict_importing :
    ofBody ["Foundation", "Swiftwright"] importing = .ready "let importer = 1\n" ∧
      Checkable (Text.lines "let importer = 1\n".toList) ∧
      ofBody ["Combine", "Foundation", "Swiftwright"] importing = .ready "let importer = 1\n" ∧
      ofBody ["Swiftwright", "Foundation", "Swiftwright"] importing = .ready "let importer = 1\n" := by
  obtain ⟨-, hcheckable, hwider, hsame⟩ := ofBody_verdict ["Foundation", "Swiftwright"] importing
  refine ⟨ready_importing, hcheckable _ ready_importing, ?_, ?_⟩
  · exact (hwider ["Combine", "Foundation", "Swiftwright"] (by simp) (by simp [ready_importing])).trans ready_importing
  · exact (hsame ["Swiftwright", "Foundation", "Swiftwright"] (by simp [or_comm])).trans ready_importing

/-! ### What is dropped -/

/-- What is ready is the lines that are no imports. A line is missing exactly if it begins like the import of a safe
    module, whatever stands behind the name of the module. It is nothing but an import exactly if its attributes are
    well formed and the rest of the line is one module path with at most a comment behind it. -/
theorem dropped_lines {safe : List String} {body source : String} (h : ofBody safe body = .ready source) :
    source = written (otherLines (Text.lines body.toList)) ∧
      ∀ line ∈ Text.lines body.toList,
        (line ∉ otherLines (Text.lines body.toList) ↔
          ∃ name ∈ safe, ∃ front attributes kind text, BeginsImport line front attributes kind text name) ∧
        ∀ front attributes kind text name, BeginsImport line front attributes kind text name →
          (IsImportOnly line ↔ (∀ word ∈ attributes, IsAttribute word) ∧
            ∃ path tail, text = path ++ tail ∧ IsModulePath path ∧ IsRemarkTail tail) := by
  cases ofBody_eq_iff.1 h with
  | ready hsafe =>
    refine ⟨rfl, fun line hline => ⟨⟨fun hmissing => ?_, ?_⟩, fun _ _ _ _ _ hbegins => hbegins.importOnly_iff⟩⟩
    · obtain ⟨name, hname⟩ : IsImport line := by
        by_contra hother
        exact hmissing (mem_otherLines.2 ⟨hline, hother⟩)
      exact ⟨name, hsafe line hline name hname, imports_iff_begins.1 hname⟩
    · rintro ⟨name, -, hbegins⟩ hmem
      exact (mem_otherLines.1 hmem).2 ⟨name, imports_iff_begins.2 hbegins⟩

theorem dropped_lines_importing :
    "let importer = 1\n" = written (otherLines (Text.lines importing.toList)) ∧
      "import class Foundation.NSString // text".toList ∈ Text.lines importing.toList ∧
      ("import class Foundation.NSString // text".toList ∉ otherLines (Text.lines importing.toList) ↔
        ∃ name ∈ ["Foundation", "Swiftwright"], ∃ front attributes kind text,
          BeginsImport "import class Foundation.NSString // text".toList front attributes kind text name) := by
  have hmem : "import class Foundation.NSString // text".toList ∈ Text.lines importing.toList := by decide +kernel
  obtain ⟨hsource, hdropped⟩ := dropped_lines ready_importing
  exact ⟨hsource, hmem, (hdropped _ hmem).1⟩

/-- Code behind an import, with a bracket that is never closed, goes unchecked. -/
theorem dropped_code :
    ofBody ["Foundation", "Swiftwright"] "import struct Foundation.Date; let x = (\nlet y = 1\n" =
        .ready "let y = 1\n" ∧
      "import struct Foundation.Date; let x = (".toList ∈
        Text.lines "import struct Foundation.Date; let x = (\nlet y = 1\n".toList ∧
      "import struct Foundation.Date; let x = (".toList ∉ Text.lines "let y = 1\n".toList ∧
      ¬IsImportOnly "import struct Foundation.Date; let x = (".toList := by
  refine ⟨by decide +kernel, by decide +kernel, by decide +kernel, fun honly => ?_⟩
  have hwords : ImportWords "import struct Foundation.Date; let x = (".toList [] ["struct".toList]
      "Foundation.Date;".toList ["let".toList, "x".toList, "=".toList, "(".toList] :=
    ⟨by decide, by simp, .inr ⟨_, by decide, rfl⟩⟩
  have hfront : Text.SetsApart "import struct ".toList ([] ++ "import".toList :: ["struct".toList]) := fun rest =>
    Text.words_append_blank rfl "import struct".toList rest
  have htext : Text.StartsWord "Foundation.Date; let x = (".toList := by
    rintro c ⟨⟩
    rfl
  have hpath := ((hwords.importOnly_iff rfl hfront htext).1 honly).2
  exact absurd (exists_path_iff.1 hpath).2 (by decide)

end SwiftForge.Docs.Preparation
