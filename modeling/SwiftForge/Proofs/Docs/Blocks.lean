import Mathlib.Data.List.Basic
import SwiftForge.Proofs.Docs.Fences

/-! The code blocks of a document, read off the labels of its lines: an opening line and the body lines that follow it
    at once. Blocks stand in the document with their lines in a row and one after the other, and only the last of them
    can lack a closing line. -/

namespace SwiftForge.Docs

/-- A line with its label. -/
abbrev LabelledLine := Label × List Char

/-- A code block, and the lines before it. -/
structure Block where
  before : List (List Char)
  opening : List Char
  body : List (List Char)
  closing : Option (List Char)

/-- The body lines at the start of some lines. -/
def bodyRun : List LabelledLine → List (List Char)
  | (.body, line) :: rest => line :: bodyRun rest
  | _ => []

/-- The closing line that follows these body lines. -/
def closing? : List LabelledLine → Option (List Char)
  | (.body, _) :: rest => closing? rest
  | (.closing, line) :: _ => some line
  | _ => none

/-- The blocks of lines, one for each opening line, given the lines before. -/
def blocks (before : List (List Char)) : List LabelledLine → List Block
  | [] => []
  | (.opening, line) :: rest =>
    { before, opening := line, body := bodyRun rest, closing := closing? rest } :: blocks (before ++ [line]) rest
  | (_, line) :: rest => blocks (before ++ [line]) rest

/-- Body lines stand at the start of the lines that they are taken from, and the closing line follows. -/
theorem exists_bodyRun (labelled : List LabelledLine) :
    ∃ after, labelled.map (·.2) = bodyRun labelled ++ ((closing? labelled).toList ++ after) := by
  induction labelled with
  | nil => exact ⟨[], rfl⟩
  | cons entry rest ih =>
    obtain ⟨label, line⟩ := entry
    obtain ⟨after, hafter⟩ := ih
    cases label with
    | outside => exact ⟨line :: rest.map (·.2), rfl⟩
    | opening => exact ⟨line :: rest.map (·.2), rfl⟩
    | body => exact ⟨after, congrArg (line :: ·) hafter⟩
    | closing => exact ⟨rest.map (·.2), rfl⟩

/-- A block stands in the document with its lines in a row. -/
theorem exists_lines_of_mem_blocks {labelled : List LabelledLine} {before : List (List Char)} {b : Block}
    (hb : b ∈ blocks before labelled) :
    ∃ after, before ++ labelled.map (·.2) = b.before ++ b.opening :: (b.body ++ (b.closing.toList ++ after)) := by
  induction labelled generalizing before with
  | nil => cases hb
  | cons entry rest ih =>
    obtain ⟨label, line⟩ := entry
    have hrest : b ∈ blocks (before ++ [line]) rest → ∃ after, before ++ ((label, line) :: rest).map (·.2) =
        b.before ++ b.opening :: (b.body ++ (b.closing.toList ++ after)) := by
      intro hmem
      obtain ⟨after, hafter⟩ := ih hmem
      exact ⟨after, by rw [← hafter, List.map_cons, List.append_assoc]; rfl⟩
    cases label with
    | outside => exact hrest hb
    | body => exact hrest hb
    | closing => exact hrest hb
    | opening =>
      rcases List.mem_cons.1 hb with rfl | hb
      · obtain ⟨after, hafter⟩ := exists_bodyRun rest
        exact ⟨after, by rw [← hafter]; rfl⟩
      · exact hrest hb

/-- The blocks of the lines behind a place stand behind the body lines there. -/
theorem exists_between_of_mem_blocks {labelled : List LabelledLine} {before : List (List Char)} {b : Block}
    (hb : b ∈ blocks before labelled) : ∃ between, b.before = before ++ (bodyRun labelled ++ between) := by
  induction labelled generalizing before with
  | nil => cases hb
  | cons entry rest ih =>
    obtain ⟨label, line⟩ := entry
    have hrest : b ∈ blocks (before ++ [line]) rest →
        ∃ between, b.before = before ++ line :: (bodyRun rest ++ between) := by
      intro hmem
      obtain ⟨between, hbetween⟩ := ih hmem
      exact ⟨between, by rw [hbetween, List.append_assoc, List.singleton_append]⟩
    cases label with
    | outside =>
      obtain ⟨between, hbetween⟩ := hrest hb
      exact ⟨line :: (bodyRun rest ++ between), hbetween⟩
    | closing =>
      obtain ⟨between, hbetween⟩ := hrest hb
      exact ⟨line :: (bodyRun rest ++ between), hbetween⟩
    | body =>
      obtain ⟨between, hbetween⟩ := hrest hb
      exact ⟨between, hbetween⟩
    | opening =>
      rcases List.mem_cons.1 hb with rfl | hb
      · exact ⟨[], (List.append_nil before).symm⟩
      · obtain ⟨between, hbetween⟩ := hrest hb
        exact ⟨line :: (bodyRun rest ++ between), hbetween⟩

/-- A block stands before the blocks after it, body and all. -/
theorem pairwise_blocks (labelled : List LabelledLine) (before : List (List Char)) :
    (blocks before labelled).Pairwise fun a b =>
      ∃ between, b.before = a.before ++ a.opening :: (a.body ++ between) := by
  induction labelled generalizing before with
  | nil => exact .nil
  | cons entry rest ih =>
    obtain ⟨label, line⟩ := entry
    cases label with
    | outside => exact ih _
    | body => exact ih _
    | closing => exact ih _
    | opening =>
      refine .cons (fun b hb => ?_) (ih _)
      obtain ⟨between, hbetween⟩ := exists_between_of_mem_blocks hb
      exact ⟨between, by rw [hbetween, List.append_assoc, List.singleton_append]⟩

/-! ### Blocks that are not closed -/

/-- A block that is open and never closed has all the lines that follow. -/
theorem Labelled.bodyRun_of_not_closed {fence : Fence} {lines : List (List Char)} {labels : List Label}
    {stop : Option Fence} (h : Labelled (some fence) lines labels stop) (hclosing : closing? (labels.zip lines) = none)
    (before : List (List Char)) :
    bodyRun (labels.zip lines) = lines ∧ blocks before (labels.zip lines) = [] := by
  generalize hstart : some fence = start at h
  induction h generalizing before with
  | done start => exact ⟨rfl, rfl⟩
  | outside hline hrest ih => cases hstart
  | opening hline hrest ih => cases hstart
  | body hline hrest ih =>
    obtain ⟨hbody, hblocks⟩ := ih hclosing _ hstart
    exact ⟨congrArg _ hbody, hblocks⟩
  | closing hline hrest ih => cases hclosing

/-- Only the last block can lack a closing line, and then its body runs to the end. -/
theorem Labelled.eq_nil_of_not_closed {start stop : Option Fence} {lines : List (List Char)} {labels : List Label}
    (h : Labelled start lines labels stop) {before : List (List Char)} {earlier later : List Block} {b : Block}
    (hb : blocks before (labels.zip lines) = earlier ++ b :: later) (hclosing : b.closing = none) :
    later = [] ∧ before ++ lines = b.before ++ b.opening :: b.body := by
  have hstep : ∀ (line : List Char) (rest : List (List Char)), before ++ line :: rest = before ++ [line] ++ rest :=
    fun line rest => by simp
  induction h generalizing before earlier with
  | done start => simp [blocks] at hb
  | outside hline hrest ih =>
    rw [hstep]
    exact ih hb fun line rest => by simp
  | body hline hrest ih =>
    rw [hstep]
    exact ih hb fun line rest => by simp
  | closing hline hrest ih =>
    rw [hstep]
    exact ih hb fun line rest => by simp
  | opening hline hrest ih =>
    rw [List.zip_cons_cons, blocks] at hb
    cases earlier with
    | nil =>
      obtain ⟨rfl, rfl⟩ := List.cons.inj hb
      obtain ⟨hbody, hlater⟩ := hrest.bodyRun_of_not_closed hclosing _
      exact ⟨hlater, by rw [hbody]⟩
    | cons first earlier =>
      obtain ⟨-, hb⟩ := List.cons.inj hb
      rw [hstep]
      exact ih hb fun line rest => by simp

theorem Labelled.length_eq {start stop : Option Fence} {lines : List (List Char)} {labels : List Label}
    (h : Labelled start lines labels stop) : labels.length = lines.length := by
  induction h with
  | done start => rfl
  | outside hline hrest ih => exact congrArg (· + 1) ih
  | opening hline hrest ih => exact congrArg (· + 1) ih
  | body hline hrest ih => exact congrArg (· + 1) ih
  | closing hline hrest ih => exact congrArg (· + 1) ih

theorem length_blocks (labelled : List LabelledLine) (before : List (List Char)) :
    (blocks before labelled).length = (labelled.map (·.1)).count .opening := by
  induction labelled generalizing before with
  | nil => rfl
  | cons entry rest ih =>
    obtain ⟨label, line⟩ := entry
    rw [List.map_cons, List.count_cons, ← ih (before ++ [line])]
    cases label <;> rfl

/-- The text of a document falls into what is before the body of a block, the body, and what is after it. -/
theorem LabelsOf.exists_parts {text : List Char} {labels : List Label} (h : LabelsOf text labels) {b : Block}
    (hb : b ∈ blocks [] (labels.zip (Text.terminatedLines text))) :
    (∃ after, Text.terminatedLines text = b.before ++ b.opening :: after) ∧
      ∃ after, text = b.before.flatten ++ b.opening ++ b.body.flatten ++ after := by
  obtain ⟨stop, h⟩ := h
  obtain ⟨after, hlines⟩ := exists_lines_of_mem_blocks hb
  rw [List.map_snd_zip (Nat.le_of_eq h.length_eq.symm), List.nil_append] at hlines
  refine ⟨⟨_, hlines⟩, (b.closing.toList ++ after).flatten, ?_⟩
  rw [← Text.flatten_terminatedLines text, hlines]
  simp only [List.flatten_append, List.flatten_cons, List.append_assoc]

end SwiftForge.Docs
