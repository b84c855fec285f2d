import Mathlib.Data.List.Basic
import SwiftForge.Text.Blank
import SwiftForge.Text.Lines

/-! Lines and bytes of a text. A text that ends with a line feed has its own lines whatever follows it, as many as it
    has line feeds; a place counted in bytes cuts a text where one of its parts ends. -/

namespace SwiftForge.Text

/-! ### Lines -/

/-- Nothing is left of the last line: the text is empty or ends with a line feed. -/
def EndsLine (cs : List Char) : Prop := ∀ c ∈ cs.getLast?, c = '\n'

theorem EndsLine.tail {c : Char} {rest : List Char} (h : EndsLine (c :: rest)) : EndsLine rest := by
  intro d hd
  have hne : rest ≠ [] := by
    rintro rfl
    cases hd
  exact h d (by rwa [List.getLast?_cons_of_ne_nil hne])

theorem terminatedLines_newline (rest : List Char) :
    terminatedLines ('\n' :: rest) = ['\n'] :: terminatedLines rest := by
  rw [terminatedLines, if_pos rfl]

theorem terminatedLines_ne_nil {cs : List Char} (h : cs ≠ []) : terminatedLines cs ≠ [] := by
  intro hnil
  rw [← flatten_terminatedLines cs, hnil] at h
  exact h rfl

/-- What follows a text that ends its last line adds lines of its own. -/
theorem terminatedLines_append {a : List Char} (h : EndsLine a) (b : List Char) :
    terminatedLines (a ++ b) = terminatedLines a ++ terminatedLines b := by
  induction a with
  | nil => rfl
  | cons c rest ih =>
    have ih := ih h.tail
    by_cases hc : c = '\n'
    · subst hc
      rw [List.cons_append, terminatedLines_newline, terminatedLines_newline, ih, List.cons_append]
    · have hne : rest ≠ [] := by
        rintro rfl
        exact hc (h c rfl)
      obtain ⟨line, lines, hlines⟩ := List.exists_cons_of_ne_nil (terminatedLines_ne_nil hne)
      rw [List.cons_append, terminatedLines, if_neg hc, ih, terminatedLines, if_neg hc, hlines]
      rfl

/-- The first line ends where the first line feed is; there is no other line if there is none. -/
theorem terminatedLines_eq_cons {cs line : List Char} {more : List (List Char)}
    (h : terminatedLines cs = line :: more) :
    (∃ body, '\n' ∉ body ∧ line = body ++ ['\n'] ∧ ∃ rest, terminatedLines rest = more) ∨
      ('\n' ∉ line ∧ more = []) := by
  induction cs generalizing line more with
  | nil => cases h
  | cons c rest ih =>
    by_cases hc : c = '\n'
    · subst hc
      rw [terminatedLines_newline] at h
      obtain ⟨rfl, rfl⟩ := List.cons.inj h
      exact .inl ⟨[], by simp, rfl, rest, rfl⟩
    · rw [terminatedLines, if_neg hc] at h
      cases hrest : terminatedLines rest with
      | nil =>
        rw [hrest] at h
        cases h
        exact .inr ⟨by simpa using Ne.symm hc, rfl⟩
      | cons next others =>
        rw [hrest] at h
        cases h
        rcases ih hrest with ⟨body, hbody, rfl, hmore⟩ | ⟨hnext, hothers⟩
        · exact .inl ⟨c :: body, by simpa using ⟨Ne.symm hc, hbody⟩, rfl, hmore⟩
        · exact .inr ⟨by simpa using ⟨Ne.symm hc, hnext⟩, hothers⟩

/-- Up to the end of a line that has a line feed there are as many line feeds as lines. -/
theorem count_newline {cs line : List Char} {before after : List (List Char)}
    (h : terminatedLines cs = before ++ line :: after) (hline : '\n' ∈ line) :
    (before.flatten ++ line).count '\n' = before.length + 1 := by
  have hterminated : ∀ body : List Char, '\n' ∉ body → (body ++ ['\n']).count '\n' = 1 := by
    intro body hbody
    rw [List.count_append, List.count_eq_zero_of_not_mem hbody]
    rfl
  induction before generalizing cs with
  | nil =>
    rcases terminatedLines_eq_cons h with ⟨body, hbody, rfl, -⟩ | ⟨hnone, -⟩
    · exact hterminated body hbody
    · exact absurd hline hnone
  | cons first before ih =>
    rcases terminatedLines_eq_cons h with ⟨body, hbody, rfl, rest, hrest⟩ | ⟨-, hnone⟩
    · rw [List.flatten_cons, List.append_assoc, List.count_append, hterminated body hbody, ih hrest, List.length_cons,
        Nat.add_comm]
    · simp at hnone

/-! ### Lines without their endings -/

theorem terminatedLines_line {line : List Char} (h : '\n' ∉ line) (rest : List Char) :
    terminatedLines (line ++ '\n' :: rest) = (line ++ ['\n']) :: terminatedLines rest := by
  induction line with
  | nil => exact terminatedLines_newline rest
  | cons c line ih =>
    rw [List.mem_cons, not_or] at h
    rw [List.cons_append, terminatedLines, if_neg (Ne.symm h.1), ih h.2]
    rfl

/-- Lines that are written one after the other with line feeds behind them are the lines of what is written. -/
theorem terminatedLines_flatMap {ls : List (List Char)} (h : ∀ line ∈ ls, '\n' ∉ line) :
    terminatedLines (ls.flatMap fun line => line ++ ['\n']) = ls.map fun line => line ++ ['\n'] := by
  induction ls with
  | nil => rfl
  | cons line ls ih =>
    obtain ⟨hline, hls⟩ := List.forall_mem_cons.1 h
    rw [List.flatMap_cons, List.append_assoc, List.singleton_append, terminatedLines_line hline, ih hls, List.map_cons]

theorem withoutEnding_of_not_mem {line : List Char} (h : '\n' ∉ line) : withoutEnding line = line := by
  unfold withoutEnding
  split
  · rename_i rest heq
    exact absurd (List.mem_reverse.1 (heq ▸ List.mem_cons_self)) h
  · rename_i rest _ heq
    exact absurd (List.mem_reverse.1 (heq ▸ List.mem_cons_self)) h
  · rfl

/-- A line feed goes, and a carriage return in front of it. -/
theorem withoutEnding_feed (line : List Char) :
    withoutEnding (line ++ ['\n']) = line ∨ line = withoutEnding (line ++ ['\n']) ++ ['\r'] := by
  rw [withoutEnding, List.reverse_append, List.reverse_singleton, List.singleton_append]
  split
  · rename_i rest heq
    right
    rw [← List.reverse_reverse line, (List.cons.inj heq).2, List.reverse_cons]
  · rename_i rest _ heq
    left
    rw [← (List.cons.inj heq).2, List.reverse_reverse]
  · rename_i hnone
    exact absurd rfl (hnone line.reverse)

/-- A line has its line feed at its end or has none. -/
theorem exists_of_mem_terminatedLines {cs line : List Char} (h : line ∈ terminatedLines cs) :
    ∃ body, '\n' ∉ body ∧ (line = body ++ ['\n'] ∨ line = body) := by
  generalize hlines : terminatedLines cs = all at h
  induction all generalizing cs with
  | nil => cases h
  | cons first others ih =>
    rcases terminatedLines_eq_cons hlines with ⟨body, hbody, rfl, rest, hrest⟩ | ⟨hfirst, rfl⟩
    · rcases List.mem_cons.1 h with rfl | h
      · exact ⟨body, hbody, .inl rfl⟩
      · exact ih hrest h
    · obtain rfl := List.mem_singleton.1 h
      exact ⟨line, hfirst, .inr rfl⟩

theorem feed_not_mem_lines {text line : List Char} (h : line ∈ lines text) : '\n' ∉ line := by
  obtain ⟨terminated, hmem, rfl⟩ := List.mem_map.1 h
  obtain ⟨body, hbody, rfl | rfl⟩ := exists_of_mem_terminatedLines hmem
  · rcases withoutEnding_feed body with heq | heq
    · rwa [heq]
    · rw [heq] at hbody
      exact fun hfeed => hbody (List.mem_append_left _ hfeed)
  · rwa [withoutEnding_of_not_mem hbody]

/-! ### Bytes -/

theorem byteLength_pos {cs : List Char} (h : cs ≠ []) : 0 < byteLength cs := by
  obtain ⟨c, rest, rfl⟩ := List.exists_cons_of_ne_nil h
  exact Nat.add_pos_left c.utf8Size_pos _

theorem byteLength_replicate {c : Char} (hc : c.utf8Size = 1) (n : Nat) : byteLength (List.replicate n c) = n := by
  induction n with
  | zero => rfl
  | succ n ih => rw [List.replicate_succ, byteLength_cons, ih, hc, Nat.add_comm]

theorem utf8ByteSize_ofList (cs : List Char) : (String.ofList cs).utf8ByteSize = byteLength cs := by
  induction cs with
  | nil => rfl
  | cons c rest ih =>
    rw [byteLength_cons, ← ih, ← List.singleton_append, String.ofList_append, String.utf8ByteSize_append,
      ← String.singleton_eq_ofList, String.utf8ByteSize_singleton]

theorem byteLength_toList (s : String) : byteLength s.toList = s.utf8ByteSize := by
  rw [← utf8ByteSize_ofList, String.ofList_toList]

/-- A text of three parts has the bytes of the middle one where it starts. -/
theorem extract_middle (a b c : String) :
    (a ++ b ++ c).toByteArray.extract a.utf8ByteSize (a.utf8ByteSize + b.utf8ByteSize) = b.toByteArray := by
  rw [String.append_assoc, String.toByteArray_append, String.toByteArray_append]
  have h := @ByteArray.extract_append_size_add a.toByteArray (b.toByteArray ++ c.toByteArray) 0 b.utf8ByteSize
  rw [Nat.add_zero] at h
  exact h.trans (ByteArray.extract_append_eq_left rfl)

/-- A place at which a text falls into two parts. -/
theorem isValid_of_append {cs a b : List Char} (h : cs = a ++ b) :
    String.Pos.Raw.IsValid (String.ofList cs) ⟨byteLength a⟩ := by
  rw [String.Pos.Raw.isValid_iff_exists_append]
  refine ⟨String.ofList a, String.ofList b, by rw [h, String.ofList_append], ?_⟩
  rw [← utf8ByteSize_ofList]
  rfl

/-! ### Runs of one character -/

section

variable {c : Char} {rest : List Char}

/-- A text starts with a run of a character, which ends before another one. -/
theorem exists_run (c : Char) (cs : List Char) : ∃ n rest, cs = List.replicate n c ++ rest ∧ rest.head? ≠ some c := by
  induction cs with
  | nil => exact ⟨0, [], rfl, by simp⟩
  | cons d ds ih =>
    by_cases hd : d = c
    · obtain ⟨n, rest, rfl, hrest⟩ := ih
      exact ⟨n + 1, rest, by rw [hd]; rfl, hrest⟩
    · exact ⟨0, d :: ds, rfl, by simpa using hd⟩

theorem takeWhile_run (n : Nat) (h : rest.head? ≠ some c) :
    (List.replicate n c ++ rest).takeWhile (· == c) = List.replicate n c := by
  induction n with
  | zero =>
    cases rest with
    | nil => rfl
    | cons d ds => exact List.takeWhile_cons_of_neg (by simpa using h)
  | succ n ih => simp [List.replicate_succ, ih]

theorem dropWhile_run (n : Nat) (h : rest.head? ≠ some c) :
    (List.replicate n c ++ rest).dropWhile (· == c) = rest := by
  induction n with
  | zero =>
    cases rest with
    | nil => rfl
    | cons d ds => exact List.dropWhile_cons_of_neg (by simpa using h)
  | succ n ih => simp [List.replicate_succ, ih]

end

/-! ### Trimming -/

theorem mem_dropWhile {p : Char → Bool} {c : Char} (hc : p c = false) {cs : List Char} :
    c ∈ cs.dropWhile p ↔ c ∈ cs := by
  induction cs with
  | nil => simp
  | cons d ds ih =>
    rw [List.dropWhile_cons]
    split
    · have hne : c ≠ d := by
        rintro rfl
        simp_all
      simp [ih, hne]
    · rfl

/-- Trimming takes nothing but blanks away. -/
theorem mem_trim {c : Char} (hc : isBlank c = false) {cs : List Char} : c ∈ trim cs ↔ c ∈ cs := by
  rw [trim, trimEnd, dropEndWhile, List.mem_reverse, mem_dropWhile hc, List.mem_reverse, trimStart, mem_dropWhile hc]

end SwiftForge.Text
