import SwiftForge.Layout.Fragment
import SwiftForge.Proofs.Layout.Lines

/-! Where Swift ends a line. A line feed ends one, and so does a carriage return, alone or together with a line feed
    behind it. A `//` comment runs to the end of its line only, so what stands behind a carriage return in its text is
    read as code. -/

namespace SwiftForge

namespace Text

/-- The lines of a text as Swift reads them. -/
def swiftLines : List Char → List (List Char)
  | [] => [[]]
  | '\r' :: '\n' :: rest => [] :: swiftLines rest
  | c :: rest =>
    if c = '\n' ∨ c = '\r' then [] :: swiftLines rest
    else
      match swiftLines rest with
      | [] => [[c]]
      | line :: lines => (c :: line) :: lines

/-- Whether a line starts with `//` after its indentation. -/
def IsRemark (line : List Char) : Prop := ['/', '/'] <+: line.dropWhile fun c => c = ' ' ∨ c = '\t'

instance (line : List Char) : Decidable (IsRemark line) := inferInstanceAs (Decidable (_ <+: _))

/-- No line of these holds code: each is empty or a comment. -/
def CodeFree (lines : List (List Char)) : Prop := ∀ line ∈ lines, line = [] ∨ IsRemark line

instance (lines : List (List Char)) : Decidable (CodeFree lines) :=
  inferInstanceAs (Decidable (∀ line ∈ lines, line = [] ∨ IsRemark line))

theorem codeFree_cons {line : List Char} {lines : List (List Char)} :
    CodeFree (line :: lines) ↔ (line = [] ∨ IsRemark line) ∧ CodeFree lines := List.forall_mem_cons

theorem codeFree_append {a b : List (List Char)} : CodeFree (a ++ b) ↔ CodeFree a ∧ CodeFree b := List.forall_mem_append

/-! ### Cutting at both characters -/

/-- The parts of a text between line feeds and carriage returns, as if the two together ended two lines. -/
def brokenLines (cs : List Char) : List (List Char) := (splitAt '\n' cs).flatMap (splitAt '\r')

theorem splitAt_cons {sep c : Char} (h : c ≠ sep) (cs : List Char) : ∃ part parts,
    splitAt sep cs = part :: parts ∧ splitAt sep (c :: cs) = (c :: part) :: parts := by
  obtain ⟨part, parts, hparts⟩ := List.exists_cons_of_ne_nil (splitAt_ne_nil sep cs)
  exact ⟨part, parts, hparts, by rw [splitAt, if_neg h, hparts]⟩

theorem brokenLines_feed (cs : List Char) : brokenLines ('\n' :: cs) = [] :: brokenLines cs := by
  rw [brokenLines, splitAt, if_pos rfl, List.flatMap_cons]
  rfl

theorem brokenLines_return (cs : List Char) : brokenLines ('\r' :: cs) = [] :: brokenLines cs := by
  obtain ⟨part, parts, hcs, hcons⟩ := splitAt_cons (show '\r' ≠ '\n' by decide) cs
  rw [brokenLines, brokenLines, hcs, hcons, List.flatMap_cons, List.flatMap_cons, splitAt, if_pos rfl,
    List.cons_append]

theorem brokenLines_cons {c : Char} (hfeed : c ≠ '\n') (hreturn : c ≠ '\r') (cs : List Char) : ∃ line lines,
    brokenLines cs = line :: lines ∧ brokenLines (c :: cs) = (c :: line) :: lines := by
  obtain ⟨part, parts, hcs, hcons⟩ := splitAt_cons hfeed cs
  obtain ⟨line, lines, hpart, hline⟩ := splitAt_cons hreturn part
  refine ⟨line, lines ++ parts.flatMap (splitAt '\r'), ?_, ?_⟩
  · rw [brokenLines, hcs, List.flatMap_cons, hpart, List.cons_append]
  · rw [brokenLines, hcons, List.flatMap_cons, hline, List.cons_append]

/-- A carriage return and a line feed end one line for Swift and two when taken apart; the one between them is empty. -/
theorem codeFree_swiftLines_iff (cs : List Char) : CodeFree (swiftLines cs) ↔ CodeFree (brokenLines cs) := by
  -- The first lines are compared as such: they grow with each character in front of them.
  suffices h : ∃ line lines others, swiftLines cs = line :: lines ∧ brokenLines cs = line :: others ∧
      (CodeFree lines ↔ CodeFree others) by
    obtain ⟨line, lines, others, hswift, hbroken, hiff⟩ := h
    rw [hswift, hbroken, codeFree_cons, codeFree_cons, hiff]
  induction cs using swiftLines.induct with
  | case1 => exact ⟨[], [], [], rfl, rfl, Iff.rfl⟩
  | case2 rest ih =>
    obtain ⟨line, lines, others, hswift, hbroken, hiff⟩ := ih
    refine ⟨[], line :: lines, [] :: line :: others, by rw [swiftLines, hswift], ?_, ?_⟩
    · rw [brokenLines_return, brokenLines_feed, hbroken]
    · simp only [codeFree_cons, hiff, true_or, true_and]
  | case3 c rest hpair hbreak ih =>
    obtain ⟨line, lines, others, hswift, hbroken, hiff⟩ := ih
    refine ⟨[], line :: lines, line :: others, ?_, ?_, by rw [codeFree_cons, codeFree_cons, hiff]⟩
    · rw [swiftLines, if_pos hbreak, hswift]
      exact hpair
    · rcases hbreak with rfl | rfl
      · rw [brokenLines_feed, hbroken]
      · rw [brokenLines_return, hbroken]
  | case4 c rest hpair hbreak hnil ih =>
    obtain ⟨line, lines, others, hswift, -, -⟩ := ih
    rw [hnil] at hswift
    cases hswift
  | case5 c rest hpair hbreak first more hfirst ih =>
    obtain ⟨line, lines, others, hswift, hbroken, hiff⟩ := ih
    obtain ⟨hfeed, hreturn⟩ := not_or.1 hbreak
    obtain ⟨line', others', hrest, hcons⟩ := brokenLines_cons hfeed hreturn rest
    obtain ⟨rfl, rfl⟩ := List.cons.inj (hbroken.symm.trans hrest)
    refine ⟨c :: line, lines, others, ?_, hcons, hiff⟩
    rw [swiftLines, if_neg hbreak, hswift]
    exact hpair

theorem codeFree_swiftLines_feed (a b : List Char) :
    CodeFree (swiftLines (a ++ '\n' :: b)) ↔ CodeFree (swiftLines a) ∧ CodeFree (swiftLines b) := by
  rw [codeFree_swiftLines_iff, codeFree_swiftLines_iff, codeFree_swiftLines_iff, brokenLines, splitAt_separator,
    List.flatMap_append, codeFree_append]
  rfl

/-! ### One comment -/

theorem splitAt_after {sep : Char} {lead : List Char} (h : sep ∉ lead) (cs : List Char) : ∃ part parts,
    splitAt sep cs = part :: parts ∧ splitAt sep (lead ++ cs) = (lead ++ part) :: parts := by
  obtain ⟨part, parts, hparts⟩ := List.exists_cons_of_ne_nil (splitAt_ne_nil sep cs)
  refine ⟨part, parts, hparts, ?_⟩
  induction lead with
  | nil => exact hparts
  | cons c lead ih =>
    obtain ⟨hc, hlead⟩ := not_or.1 (mt List.mem_cons.2 h)
    rw [List.cons_append, splitAt, if_neg (Ne.symm hc), ih hlead]
    rfl

theorem isRemark_after {lead : List Char} (hlead : ∀ c ∈ lead, c = ' ' ∨ c = '\t') (cs : List Char) :
    IsRemark (lead ++ '/' :: '/' :: cs) := by
  rw [IsRemark, List.dropWhile_append_of_pos fun c hc => decide_eq_true (hlead c hc)]
  exact ⟨cs, rfl⟩

/-- Each physical line of a text goes on as a comment behind its carriage returns, if it goes on at all. -/
def StaysRemark (text : String) : Prop := ∀ line ∈ splitAt '\n' text.toList, CodeFree (splitAt '\r' line).tail

instance (text : String) : Decidable (StaysRemark text) :=
  inferInstanceAs (Decidable (∀ line ∈ splitAt '\n' text.toList, CodeFree (splitAt '\r' line).tail))

/-- A comment on one line is free of code up to its first carriage return, whatever is in it. -/
theorem codeFree_swiftLines_remark {lead mark text : List Char} (hlead : ∀ c ∈ lead, c = ' ' ∨ c = '\t')
    (hmark : ∀ c ∈ mark, c ≠ '\n' ∧ c ≠ '\r') (htext : '\n' ∉ text) :
    CodeFree (swiftLines (lead ++ '/' :: '/' :: mark ++ text)) ↔ CodeFree (splitAt '\r' text).tail := by
  have hopening : ∀ c ∈ lead ++ '/' :: '/' :: mark, c ≠ '\n' ∧ c ≠ '\r' := by
    intro c hc
    rcases List.mem_append.1 hc with hc | hc
    · rcases hlead c hc with rfl | rfl <;> decide
    · rcases List.mem_cons.1 hc with rfl | hc
      · decide
      · rcases List.mem_cons.1 hc with rfl | hc
        · decide
        · exact hmark c hc
  have hfeed : '\n' ∉ lead ++ '/' :: '/' :: mark ++ text := by
    rw [List.mem_append, not_or]
    exact ⟨fun hc => (hopening _ hc).1 rfl, htext⟩
  obtain ⟨part, parts, hparts, hwhole⟩ := splitAt_after (fun hc => (hopening '\r' hc).2 rfl) text
  have hfirst : IsRemark (lead ++ '/' :: '/' :: mark ++ part) := by
    rw [List.append_assoc, List.cons_append, List.cons_append]
    exact isRemark_after hlead _
  rw [codeFree_swiftLines_iff, brokenLines, splitAt_eq_singleton hfeed, List.flatMap_singleton, hwhole, hparts,
    codeFree_cons, List.tail_cons]
  exact and_iff_right (.inr hfirst)

end Text

end SwiftForge
