import SwiftForge.Docs.Sample
import SwiftForge.Proofs.Text.Lines

/-! Which lines of a document are fences and what each line is to the code blocks around it. A line outside of blocks
    that is a fence opens a block; inside a block only a fence that closes it counts. There is one way to tell the lines
    apart by these rules. -/

namespace SwiftForge.Docs

namespace Fence

/-- A line is a fence: at most three spaces, at least three backticks or at least three tildes, all that stand there,
    and a text, which after backticks holds none. The info is the text without the blanks around it. -/
inductive Reads : Fence → List Char → Prop
  | intro {marker : Char} {indent width : Nat} {text : List Char} (hindent : indent ≤ 3)
    (hmarker : marker = '\x60' ∨ marker = '~') (hwidth : 3 ≤ width) (hnext : text.head? ≠ some marker)
    (hinfo : marker = '\x60' → '\x60' ∉ text) :
    Reads { marker, width, info := Text.trim text }
      (List.replicate indent ' ' ++ (List.replicate width marker ++ text))

/-- A line closes the block of a fence: a fence of the same marker, at least as wide, with nothing after it. -/
def ClosedBy (fence : Fence) (line : List Char) : Prop :=
  ∃ close : Fence, close.Reads line ∧ close.marker = fence.marker ∧ fence.width ≤ close.width ∧ close.info = []

theorem isMarker_iff {c : Char} : isMarker c = true ↔ c = '\x60' ∨ c = '~' := by
  simp [isMarker]

theorem ne_space_of_isMarker {c : Char} (h : isMarker c = true) : c ≠ ' ' := by
  rintro rfl
  exact absurd h (by decide)

/-- Reading a line whose runs of spaces and of what comes after them are known. -/
theorem ofLine?_runs {indent width : Nat} {marker : Char} {text : List Char} (hmarker : marker ≠ ' ')
    (hnext : text.head? ≠ some marker) :
    ofLine? (List.replicate indent ' ' ++ (List.replicate (width + 1) marker ++ text)) =
      if indent > 3 then none
      else if !isMarker marker then none
      else if 1 + width < 3 then none
      else if marker == '\x60' && (Text.trim text).contains '\x60' then none
      else some { marker, width := 1 + width, info := Text.trim text } := by
  have hspace : (List.replicate (width + 1) marker ++ text).head? ≠ some ' ' := by
    simpa [List.replicate_succ] using hmarker
  rw [ofLine?, Text.takeWhile_run indent hspace, Text.dropWhile_run indent hspace, List.length_replicate]
  simp only [List.replicate_succ, List.cons_append, Text.takeWhile_run width hnext, Text.dropWhile_run width hnext,
    List.length_replicate]

theorem ofLine?_eq_some_iff {line : List Char} {fence : Fence} : ofLine? line = some fence ↔ fence.Reads line := by
  constructor
  · intro h
    obtain ⟨indent, rest, rfl, hrest⟩ := Text.exists_run ' ' line
    cases rest with
    | nil =>
      rw [ofLine?, Text.dropWhile_run indent hrest] at h
      cases h
    | cons marker more =>
      obtain ⟨width, text, rfl, htext⟩ := Text.exists_run marker more
      have hmarker : marker ≠ ' ' := fun e => hrest (congrArg some e)
      rw [← List.cons_append, ← List.replicate_succ, ofLine?_runs hmarker htext] at h
      split_ifs at h with hindent hsort hwidth hinfo
      obtain rfl := Option.some.inj h
      rw [← List.cons_append, ← List.replicate_succ, Nat.add_comm]
      refine .intro (by omega) (isMarker_iff.1 (by simpa using hsort)) (by omega) htext fun hbacktick => ?_
      rw [← Text.mem_trim (show Text.isBlank '\x60' = false by decide)]
      simpa [hbacktick] using hinfo
  · rintro @⟨marker, indent, width, text, hindent, hmarker, hwidth, hnext, hinfo⟩
    obtain ⟨width, rfl⟩ : ∃ k, width = k + 1 := ⟨width - 1, by omega⟩
    have hsort := isMarker_iff.2 hmarker
    rw [ofLine?_runs (ne_space_of_isMarker hsort) hnext, if_neg (by omega), if_neg (by simp [hsort]), if_neg (by omega),
      if_neg ?_, Nat.add_comm]
    rw [← Text.mem_trim (show Text.isBlank '\x60' = false by decide)] at hinfo
    simpa using hinfo

theorem ofLine?_eq_none_iff {line : List Char} : ofLine? line = none ↔ ∀ fence : Fence, ¬ fence.Reads line := by
  simp only [← ofLine?_eq_some_iff, Option.eq_none_iff_forall_ne_some, ne_eq]

theorem Reads.unique {a b : Fence} {line : List Char} (ha : a.Reads line) (hb : b.Reads line) : a = b :=
  Option.some.inj ((ofLine?_eq_some_iff.2 ha).symm.trans (ofLine?_eq_some_iff.2 hb))

theorem Reads.ne_nil {fence : Fence} {line : List Char} (h : fence.Reads line) : line ≠ [] := by
  obtain @⟨marker, indent, width, text, -, -, hwidth, -, -⟩ := h
  intro hnil
  have hlength := congrArg List.length hnil
  simp at hlength
  omega

theorem isClosedBy_iff {fence : Fence} {line : List Char} : fence.isClosedBy line = true ↔ fence.ClosedBy line := by
  unfold isClosedBy ClosedBy
  constructor
  · intro h
    cases hread : ofLine? line with
    | none => simp [hread] at h
    | some close =>
      simp only [hread, Bool.and_eq_true, beq_iff_eq, decide_eq_true_eq, List.isEmpty_iff] at h
      exact ⟨close, ofLine?_eq_some_iff.1 hread, h.1.1, h.1.2, h.2⟩
  · rintro ⟨close, hread, hmarker, hwidth, hinfo⟩
    simp [ofLine?_eq_some_iff.2 hread, hmarker, hwidth, hinfo]

/-- The places, in bytes, at which a line is cut when it is read: behind its spaces, and behind its markers. -/
def cuts (line : List Char) : List Nat :=
  let indent := (line.takeWhile (· == ' ')).length
  match line.dropWhile (· == ' ') with
  | marker :: rest =>
    if isMarker marker then [indent, indent + (1 + (rest.takeWhile (· == marker)).length)] else [indent]
  | [] => [indent]

theorem utf8Size_of_isMarker {c : Char} (h : isMarker c = true) : c.utf8Size = 1 := by
  rcases isMarker_iff.1 h with rfl | rfl <;> rfl

/-- Spaces and markers have one byte each, so no character is cut. -/
theorem isValid_of_mem_cuts {line : List Char} {n : Nat} (h : n ∈ cuts line) :
    String.Pos.Raw.IsValid (String.ofList line) ⟨n⟩ := by
  obtain ⟨indent, rest, rfl, hrest⟩ := Text.exists_run ' ' line
  have hspaces : Text.byteLength (List.replicate indent ' ') = indent := Text.byteLength_replicate rfl indent
  have hindent := Text.isValid_of_append (rfl : List.replicate indent ' ' ++ rest = _)
  rw [hspaces] at hindent
  rw [cuts, Text.takeWhile_run indent hrest, Text.dropWhile_run indent hrest, List.length_replicate] at h
  cases rest with
  | nil =>
    rw [List.mem_singleton.1 h]
    exact hindent
  | cons marker more =>
    obtain ⟨width, text, rfl, htext⟩ := Text.exists_run marker more
    simp only [Text.takeWhile_run width htext, List.length_replicate] at h
    split at h
    · rename_i hmarker
      rcases List.mem_pair.1 h with rfl | rfl
      · exact hindent
      · have hmarkers := Text.byteLength_replicate (utf8Size_of_isMarker hmarker) (width + 1)
        have hcut : List.replicate indent ' ' ++ marker :: (List.replicate width marker ++ text) =
            List.replicate indent ' ' ++ List.replicate (width + 1) marker ++ text := by
          rw [List.replicate_succ, List.append_assoc, List.cons_append]
        have hboth := Text.isValid_of_append hcut
        rwa [Text.byteLength_append, hspaces, hmarkers, Nat.add_comm width] at hboth
    · rw [List.mem_singleton.1 h]
      exact hindent

end Fence

/-! ### Labels -/

/-- What a line is to the blocks of a document. -/
inductive Label where
  | outside
  | opening
  | body
  | closing
deriving DecidableEq, Repr

/-- The labels of lines, from the fence of the block that is open before the first of them to the one that is open after
    the last. -/
inductive Labelled : Option Fence → List (List Char) → List Label → Option Fence → Prop
  | done (start : Option Fence) : Labelled start [] [] start
  | outside {line : List Char} {rest : List (List Char)} {labels : List Label} {stop : Option Fence}
    (hline : ∀ fence : Fence, ¬ fence.Reads (Sample.bareLine line)) (hrest : Labelled none rest labels stop) :
    Labelled none (line :: rest) (.outside :: labels) stop
  | opening {line : List Char} {rest : List (List Char)} {labels : List Label} {stop : Option Fence} {fence : Fence}
    (hline : fence.Reads (Sample.bareLine line)) (hrest : Labelled (some fence) rest labels stop) :
    Labelled none (line :: rest) (.opening :: labels) stop
  | body {line : List Char} {rest : List (List Char)} {labels : List Label} {stop : Option Fence} {fence : Fence}
    (hline : ¬ fence.ClosedBy (Sample.bareLine line)) (hrest : Labelled (some fence) rest labels stop) :
    Labelled (some fence) (line :: rest) (.body :: labels) stop
  | closing {line : List Char} {rest : List (List Char)} {labels : List Label} {stop : Option Fence} {fence : Fence}
    (hline : fence.ClosedBy (Sample.bareLine line)) (hrest : Labelled none rest labels stop) :
    Labelled (some fence) (line :: rest) (.closing :: labels) stop

/-- The labels of all lines of a text. -/
def LabelsOf (text : List Char) (labels : List Label) : Prop :=
  ∃ stop, Labelled none (Text.terminatedLines text) labels stop

/-- Every block of a text is closed. -/
def AllClosed (text : List Char) : Prop := ∃ labels, Labelled none (Text.terminatedLines text) labels none

namespace Labelled

/-- Every line has a label. -/
theorem exists_labels (start : Option Fence) (lines : List (List Char)) :
    ∃ labels stop, Labelled start lines labels stop := by
  induction lines generalizing start with
  | nil => exact ⟨[], start, .done start⟩
  | cons line rest ih =>
    cases start with
    | none =>
      by_cases hline : ∃ fence : Fence, fence.Reads (Sample.bareLine line)
      · obtain ⟨fence, hline⟩ := hline
        obtain ⟨labels, stop, hrest⟩ := ih (some fence)
        exact ⟨_, stop, .opening hline hrest⟩
      · obtain ⟨labels, stop, hrest⟩ := ih none
        exact ⟨_, stop, .outside (not_exists.1 hline) hrest⟩
    | some fence =>
      by_cases hline : fence.ClosedBy (Sample.bareLine line)
      · obtain ⟨labels, stop, hrest⟩ := ih none
        exact ⟨_, stop, .closing hline hrest⟩
      · obtain ⟨labels, stop, hrest⟩ := ih (some fence)
        exact ⟨_, stop, .body hline hrest⟩

/-- No line has two labels. -/
theorem unique {start stop stop' : Option Fence} {lines : List (List Char)} {labels labels' : List Label}
    (h : Labelled start lines labels stop) (h' : Labelled start lines labels' stop') : labels' = labels := by
  induction h generalizing labels' stop' with
  | done start =>
    cases h'
    rfl
  | outside hline hrest ih =>
    cases h' with
    | outside hline' hrest' => rw [ih hrest']
    | opening hline' hrest' => exact absurd hline' (hline _)
  | opening hline hrest ih =>
    cases h' with
    | outside hline' hrest' => exact absurd hline (hline' _)
    | opening hline' hrest' =>
      -- the line has but one reading, so both go on with the same open block
      obtain rfl := hline.unique hline'
      rw [ih hrest']
  | body hline hrest ih =>
    cases h' with
    | body hline' hrest' => rw [ih hrest']
    | closing hline' hrest' => exact absurd hline' hline
  | closing hline hrest ih =>
    cases h' with
    | body hline' hrest' => exact absurd hline hline'
    | closing hline' hrest' => rw [ih hrest']

end Labelled

/-- There is one way to label the lines of a text. -/
theorem exists_labelsOf_iff (text : List Char) : ∃ labels, ∀ other, LabelsOf text other ↔ other = labels := by
  obtain ⟨labels, stop, h⟩ := Labelled.exists_labels none (Text.terminatedLines text)
  refine ⟨labels, fun other => ⟨?_, ?_⟩⟩
  · rintro ⟨stop', h'⟩
    exact h.unique h'
  · rintro rfl
    exact ⟨stop, h⟩

end SwiftForge.Docs
