import Mathlib.Data.List.Forall2
import SwiftForge.Proofs.Docs.Blocks

/-! The samples of a document are its code blocks: a sample shows what its block holds and where it stands. Reading goes
    on behind a closed block as if the document started there, so a document in two parts has the samples of the first
    and, moved, those of the second. -/

namespace SwiftForge.Docs

/-- A sample shows a block: the info of its opening line, its body, and where the body starts. -/
structure Block.Shows (path : String) (b : Block) (s : Sample) : Prop where
  path : s.path = path
  info : ∃ fence : Fence, fence.Reads (Sample.bareLine b.opening) ∧ s.info = String.ofList fence.info
  body : s.body = String.ofList b.body.flatten
  line : s.line = b.before.length + 2
  offset : s.offset = Text.byteLength (b.before.flatten ++ b.opening)
  len : s.len = Text.byteLength b.body.flatten

namespace Sample

variable {path : String}

theorem fromLines_outside {line : List Char} (hline : ∀ fence : Fence, ¬ fence.Reads (bareLine line))
    (index offset : Nat) (rest : List (List Char)) :
    fromLines path index offset none (line :: rest) =
      fromLines path (index + 1) (offset + Text.byteLength line) none rest := by
  rw [fromLines, Fence.ofLine?_eq_none_iff.2 hline, Option.map_none]

theorem fromLines_opening {line : List Char} {fence : Fence} (hline : fence.Reads (bareLine line)) (index offset : Nat)
    (rest : List (List Char)) :
    fromLines path index offset none (line :: rest) =
      fromLines path (index + 1) (offset + Text.byteLength line)
        (some { fence, line := index + 2, offset := offset + Text.byteLength line, body := [] }) rest := by
  rw [fromLines, Fence.ofLine?_eq_some_iff.2 hline, Option.map_some]

theorem fromLines_body {line : List Char} {block : OpenBlock} (hline : ¬ block.fence.ClosedBy (bareLine line))
    (index offset : Nat) (rest : List (List Char)) :
    fromLines path index offset (some block) (line :: rest) =
      fromLines path (index + 1) (offset + Text.byteLength line) (some { block with body := block.body ++ [line] })
        rest := by
  rw [fromLines, if_neg (mt Fence.isClosedBy_iff.1 hline)]

theorem fromLines_closing {line : List Char} {block : OpenBlock} (hline : block.fence.ClosedBy (bareLine line))
    (index offset : Nat) (rest : List (List Char)) :
    fromLines path index offset (some block) (line :: rest) =
      block.sample path :: fromLines path (index + 1) (offset + Text.byteLength line) none rest := by
  rw [fromLines, if_pos (Fence.isClosedBy_iff.2 hline)]

/-- The samples of labelled lines are the blocks among them; a block that is open before the first line goes on with the
    body lines at the start. -/
theorem fromLines_shows {start stop : Option Fence} {lines : List (List Char)} {labels : List Label}
    (h : Labelled start lines labels stop) (before : List (List Char)) :
    (start = none → List.Forall₂ (Block.Shows path) (blocks before (labels.zip lines))
      (fromLines path before.length (Text.byteLength before.flatten) none lines)) ∧
    ∀ block : OpenBlock, start = some block.fence → ∃ later,
      fromLines path before.length (Text.byteLength before.flatten) (some block) lines =
        { block with body := block.body ++ bodyRun (labels.zip lines) }.sample path :: later ∧
      List.Forall₂ (Block.Shows path) (blocks before (labels.zip lines)) later := by
  have hplace : ∀ (before : List (List Char)) (line : List Char),
      Text.byteLength before.flatten + Text.byteLength line = Text.byteLength (before ++ [line]).flatten := by
    intro before line
    simp
  have hindex : ∀ (before : List (List Char)) (line : List Char), before.length + 1 = (before ++ [line]).length := by
    intro before line
    simp
  -- by the labels; an open block comes with the body lines it has so far
  induction h generalizing before with
  | done start =>
    refine ⟨fun _ => .nil, fun block _ => ⟨[], ?_, .nil⟩⟩
    have hnone : bodyRun (([] : List Label).zip []) = [] := rfl
    rw [hnone, List.append_nil, fromLines]
  | @outside line rest labels stop hline hrest ih =>
    refine ⟨fun _ => ?_, nofun⟩
    rw [fromLines_outside hline, hplace, hindex]
    exact (ih _).1 rfl
  | @opening line rest labels stop fence hline hrest ih =>
    refine ⟨fun _ => ?_, nofun⟩
    rw [fromLines_opening hline, hplace, hindex]
    obtain ⟨later, hrun, hlater⟩ := (ih (before ++ [line])).2
      { fence, line := before.length + 2, offset := Text.byteLength (before ++ [line]).flatten, body := [] } rfl
    rw [hrun]
    refine .cons ?_ hlater
    exact {
      path := rfl
      info := ⟨fence, hline, rfl⟩
      body := rfl
      line := rfl
      offset := by simp [OpenBlock.sample]
      len := rfl }
  | @body line rest labels stop fence hline hrest ih =>
    refine ⟨nofun, fun block hblock => ?_⟩
    obtain rfl := Option.some.inj hblock
    rw [fromLines_body hline, hplace, hindex]
    obtain ⟨later, hrun, hlater⟩ := (ih (before ++ [line])).2 { block with body := block.body ++ [line] } rfl
    refine ⟨later, ?_, hlater⟩
    rw [hrun, List.zip_cons_cons, bodyRun, List.append_assoc, List.singleton_append]
  | @closing line rest labels stop fence hline hrest ih =>
    refine ⟨nofun, fun block hblock => ?_⟩
    obtain rfl := Option.some.inj hblock
    rw [fromLines_closing hline, hplace, hindex]
    refine ⟨_, ?_, (ih (before ++ [line])).1 rfl⟩
    have hnone : bodyRun ((Label.closing :: labels).zip (line :: rest)) = [] := rfl
    rw [hnone, List.append_nil]

/-- The samples of a document are the blocks that the labels of its lines make. -/
theorem extract_shows {text : String} {labels : List Label} (h : LabelsOf text.toList labels) :
    List.Forall₂ (Block.Shows path) (blocks [] (labels.zip (Text.terminatedLines text.toList)))
      (extract path text) := by
  obtain ⟨stop, h⟩ := h
  exact (fromLines_shows h []).1 rfl

end Sample

/-! ### Places -/

theorem Block.Shows.opening_ne_nil {path : String} {b : Block} {s : Sample} (h : b.Shows path s) : b.opening ≠ [] := by
  obtain ⟨fence, hread, -⟩ := h.info
  intro hnil
  rw [hnil] at hread
  exact hread.ne_nil rfl

/-- What shows blocks in a row stands in a row, with the opening line of the next one between. -/
theorem pairwise_of_shows {path : String} {bs : List Block} {samples : List Sample}
    (h : List.Forall₂ (Block.Shows path) bs samples)
    (hbs : bs.Pairwise fun a b => ∃ between, b.before = a.before ++ a.opening :: (a.body ++ between)) :
    samples.Pairwise fun s t => s.offset + s.len < t.offset := by
  have hnext : ∀ {a b : Block} {s t : Sample}, a.Shows path s → b.Shows path t →
      (∃ between, b.before = a.before ++ a.opening :: (a.body ++ between)) → s.offset + s.len < t.offset := by
    rintro a b s t ha hb ⟨between, hbetween⟩
    have hopening := Text.byteLength_pos hb.opening_ne_nil
    rw [ha.offset, ha.len, hb.offset, hbetween]
    simp only [Text.byteLength_append, List.flatten_append, List.flatten_cons]
    omega
  induction h with
  | nil => exact .nil
  | @cons a s bs samples ha hrest ih =>
    obtain ⟨hfirst, hbs⟩ := List.pairwise_cons.1 hbs
    refine .cons (fun t ht => ?_) (ih hbs)
    obtain ⟨i, hi, rfl⟩ := List.getElem_of_mem ht
    have hi' : i < bs.length := hrest.length_eq ▸ hi
    exact hnext ha (hrest.get hi' hi) (hfirst _ (List.getElem_mem hi'))

theorem exists_shown {path : String} {bs : List Block} {samples : List Sample}
    (h : List.Forall₂ (Block.Shows path) bs samples) {s : Sample} (hs : s ∈ samples) : ∃ b ∈ bs, b.Shows path s := by
  obtain ⟨i, hi, rfl⟩ := List.getElem_of_mem hs
  have hi' : i < bs.length := h.length_eq ▸ hi
  exact ⟨_, List.getElem_mem hi', h.get hi' hi⟩

/-- There is one way to tell the lines of a document apart, and its samples are the blocks of that way: one for each
    opening line, in order, with the info behind the fence and the lines up to the closing one. A block that is not
    closed is the last one and runs to the end. Neither reading a line as a fence nor taking a sample out of the text
    cuts a character. -/
theorem extract_reads_blocks (path text : String) :
    ∃ labels, (∀ other, LabelsOf text.toList other ↔ other = labels) ∧
      List.Forall₂ (Block.Shows path) (blocks [] (labels.zip (Text.terminatedLines text.toList)))
        (Sample.extract path text) ∧
      (Sample.extract path text).length = labels.count .opening ∧
      (∀ earlier b later, blocks [] (labels.zip (Text.terminatedLines text.toList)) = earlier ++ b :: later →
        b.closing = none → later = [] ∧ text.toList = b.before.flatten ++ b.opening ++ b.body.flatten) ∧
      (∀ line ∈ Text.terminatedLines text.toList, ∀ n ∈ Fence.cuts (Sample.bareLine line),
        String.Pos.Raw.IsValid (String.ofList (Sample.bareLine line)) ⟨n⟩) ∧
      ∀ s ∈ Sample.extract path text,
        String.Pos.Raw.IsValid text ⟨s.offset⟩ ∧ String.Pos.Raw.IsValid text ⟨s.offset + s.len⟩ := by
  obtain ⟨labels, hlabels⟩ := exists_labelsOf_iff text.toList
  have h : LabelsOf text.toList labels := (hlabels labels).2 rfl
  have hshows : List.Forall₂ (Block.Shows path) _ (Sample.extract path text) := Sample.extract_shows h
  refine ⟨labels, hlabels, hshows, ?_, fun earlier b later hb hclosing => ?_,
    fun line _ n hn => Fence.isValid_of_mem_cuts hn, fun s hs => ?_⟩
  · obtain ⟨stop, h⟩ := h
    rw [← hshows.length_eq, length_blocks, List.map_fst_zip (Nat.le_of_eq h.length_eq)]
  · obtain ⟨stop, h⟩ := h
    obtain ⟨hlater, hlines⟩ := h.eq_nil_of_not_closed hb hclosing
    refine ⟨hlater, ?_⟩
    rw [← Text.flatten_terminatedLines text.toList, ← List.nil_append (Text.terminatedLines text.toList), hlines]
    simp only [List.flatten_append, List.flatten_cons, List.append_assoc]
  · obtain ⟨b, hb, hshow⟩ := exists_shown hshows hs
    obtain ⟨-, after, htext⟩ := h.exists_parts hb
    have hstart := Text.isValid_of_append (htext.trans (List.append_assoc _ _ _))
    have hend := Text.isValid_of_append htext
    rw [String.ofList_toList] at hstart hend
    rw [Text.byteLength_append, ← hshow.offset, ← hshow.len] at hend
    rw [← hshow.offset] at hstart
    exact ⟨hstart, hend⟩

/-- A block that is left open: its text runs to the end of the document, and the shorter fence in it closes nothing. -/
theorem extract_reads_blocks_open : ∃ b : Block,
    LabelsOf "# A\n~~~~swift\nx\n~~~".toList [.outside, .opening, .body, .body] ∧ b.closing = none ∧
      "# A\n~~~~swift\nx\n~~~".toList = b.before.flatten ++ b.opening ++ b.body.flatten ∧
      b.body.flatten = "x\n~~~".toList := by
  have hlabels : LabelsOf "# A\n~~~~swift\nx\n~~~".toList [.outside, .opening, .body, .body] :=
    ⟨some ⟨'~', 4, "swift".toList⟩, .outside (Fence.ofLine?_eq_none_iff.1 (by decide))
      (.opening (Fence.ofLine?_eq_some_iff.1 (by decide))
        (.body (mt Fence.isClosedBy_iff.2 (by decide)) (.body (mt Fence.isClosedBy_iff.2 (by decide)) (.done _))))⟩
  obtain ⟨labels, hunique, -, -, hopen, -⟩ := extract_reads_blocks "a.md" "# A\n~~~~swift\nx\n~~~"
  obtain rfl := (hunique _).1 hlabels
  exact ⟨_, hlabels, rfl, (hopen [] _ [] rfl rfl).2, rfl⟩

/-! ### Documents in two parts -/

/-- A sample of a later part of a document, whose part starts so many bytes and lines into it. -/
def Sample.moved (bytes lines : Nat) (s : Sample) : Sample :=
  { s with line := s.line + lines, offset := s.offset + bytes }

def OpenBlock.moved (bytes lines : Nat) (b : OpenBlock) : OpenBlock :=
  { b with line := b.line + lines, offset := b.offset + bytes }

namespace Sample

variable {path : String}

/-- Samples of lines that stand further on in a document are those of the lines by themselves, moved. -/
theorem fromLines_moved (bytes lines index offset : Nat) (start : Option OpenBlock) (rest : List (List Char)) :
    fromLines path (index + lines) (offset + bytes) (start.map (OpenBlock.moved bytes lines)) rest =
      (fromLines path index offset start rest).map (moved bytes lines) := by
  induction rest generalizing index offset start with
  | nil => cases start <;> rfl
  | cons line rest ih =>
    have hnext : ∀ next : Option OpenBlock,
        fromLines path (index + lines + 1) (offset + bytes + Text.byteLength line)
          (next.map (OpenBlock.moved bytes lines)) rest =
        (fromLines path (index + 1) (offset + Text.byteLength line) next rest).map (moved bytes lines) := by
      intro next
      rw [← ih, Nat.add_right_comm index, Nat.add_right_comm offset]
    cases start with
    | none =>
      by_cases hline : ∃ fence : Fence, fence.Reads (bareLine line)
      · obtain ⟨fence, hline⟩ := hline
        rw [Option.map_none, fromLines_opening hline, fromLines_opening hline, ← hnext, Option.map_some,
          OpenBlock.moved, Nat.add_right_comm index lines 2, Nat.add_right_comm offset bytes]
      · have hline := not_exists.1 hline
        rw [Option.map_none, fromLines_outside hline, fromLines_outside hline, ← hnext, Option.map_none]
    | some block =>
      have hmoved : (block.moved bytes lines).fence = block.fence := rfl
      by_cases hline : block.fence.ClosedBy (bareLine line)
      · rw [Option.map_some, fromLines_closing (hmoved ▸ hline), fromLines_closing hline, List.map_cons, ← hnext]
        rfl
      · rw [Option.map_some, fromLines_body (hmoved ▸ hline), fromLines_body hline, ← hnext]
        rfl

/-- Lines that leave no block open have their samples, and the lines after them have theirs. -/
theorem fromLines_append {start stop : Option Fence} {lines : List (List Char)} {labels : List Label}
    (h : Labelled start lines labels stop) (hstop : stop = none) (more : List (List Char)) (index offset : Nat)
    (block : Option OpenBlock) (hblock : block.map (·.fence) = start) :
    fromLines path index offset block (lines ++ more) = fromLines path index offset block lines ++
      fromLines path (index + lines.length) (offset + Text.byteLength lines.flatten) none more := by
  have hplace : ∀ (index offset : Nat) (line : List Char) (rest : List (List Char)),
      fromLines path (index + (line :: rest).length) (offset + Text.byteLength (line :: rest).flatten) none more =
        fromLines path (index + 1 + rest.length) (offset + Text.byteLength line + Text.byteLength rest.flatten) none
          more := by
    intro index offset line rest
    rw [List.length_cons, List.flatten_cons, Text.byteLength_append, Nat.add_assoc offset, Nat.add_assoc index,
      Nat.add_comm 1]
  induction h generalizing index offset block with
  | done start =>
    subst hstop
    obtain rfl := Option.map_eq_none_iff.1 hblock
    rfl
  | outside hline hrest ih =>
    obtain rfl := Option.map_eq_none_iff.1 hblock
    rw [hplace, List.cons_append, fromLines_outside hline, fromLines_outside hline]
    exact ih hstop _ _ _ rfl
  | opening hline hrest ih =>
    obtain rfl := Option.map_eq_none_iff.1 hblock
    rw [hplace, List.cons_append, fromLines_opening hline, fromLines_opening hline]
    exact ih hstop _ _ _ rfl
  | body hline hrest ih =>
    obtain ⟨block, rfl, rfl⟩ := Option.map_eq_some_iff.1 hblock
    rw [hplace, List.cons_append, fromLines_body hline, fromLines_body hline]
    exact ih hstop _ _ _ rfl
  | closing hline hrest ih =>
    obtain ⟨block, rfl, rfl⟩ := Option.map_eq_some_iff.1 hblock
    rw [hplace, List.cons_append, fromLines_closing hline, fromLines_closing hline, List.cons_append]
    exact congrArg _ (ih hstop _ _ _ rfl)

/-- A document that starts with a closed part has the samples of the part, and those of what follows moved behind it. -/
theorem extract_append {a : String} (b : String) (hclosed : AllClosed a.toList) (hend : Text.EndsLine a.toList) :
    extract path (a ++ b) = extract path a ++
      (extract path b).map (moved a.utf8ByteSize (Text.terminatedLines a.toList).length) := by
  obtain ⟨labels, h⟩ := hclosed
  rw [extract, String.toList_append, Text.terminatedLines_append hend, fromLines_append h rfl _ 0 0 none rfl,
    Text.flatten_terminatedLines, Text.byteLength_toList]
  exact congrArg _ (fromLines_moved _ _ 0 0 none _)

end Sample

/-- What a sample says about its place is true: the bytes there are its body, it lies behind the samples before it, and
    the line that it names is the one behind the line feeds before it. A document that starts with a closed part, up to
    the end of a line, has the samples of that part and then those of the rest, as many bytes and lines further on as
    the part has. -/
theorem extract_places (path : String) :
    (∀ text : String,
      (∀ s ∈ Sample.extract path text,
        s.offset + s.len ≤ text.utf8ByteSize ∧
        text.toUTF8.extract s.offset (s.offset + s.len) = s.body.toUTF8 ∧
        ∃ (before after : List (List Char)) (opening : List Char) (fence : Fence),
          Text.terminatedLines text.toList = before ++ opening :: after ∧ fence.Reads (Sample.bareLine opening) ∧
            s.offset = Text.byteLength (before.flatten ++ opening) ∧
            (opening.getLast? = some '\n' → s.line = (before.flatten ++ opening).count '\n' + 1)) ∧
      (Sample.extract path text).Pairwise fun s t => s.offset + s.len < t.offset) ∧
    ∀ a b : String, AllClosed a.toList → Text.EndsLine a.toList →
      Sample.extract path (a ++ b) = Sample.extract path a ++
        (Sample.extract path b).map (Sample.moved a.utf8ByteSize (Text.terminatedLines a.toList).length) := by
  refine ⟨fun text => ?_, fun a b hclosed hend => Sample.extract_append b hclosed hend⟩
  obtain ⟨labels, hlabels⟩ := exists_labelsOf_iff text.toList
  have h : LabelsOf text.toList labels := (hlabels labels).2 rfl
  have hshows : List.Forall₂ (Block.Shows path) _ (Sample.extract path text) := Sample.extract_shows h
  refine ⟨fun s hs => ?_, pairwise_of_shows hshows (pairwise_blocks _ _)⟩
  obtain ⟨b, hb, hshow⟩ := exists_shown hshows hs
  obtain ⟨⟨after, hlines⟩, rest, htext⟩ := h.exists_parts hb
  have hstart : s.offset = (String.ofList (b.before.flatten ++ b.opening)).utf8ByteSize := by
    rw [Text.utf8ByteSize_ofList, hshow.offset]
  have hbody : s.len = s.body.utf8ByteSize := by
    rw [hshow.body, Text.utf8ByteSize_ofList, hshow.len]
  have hparts : text = String.ofList (b.before.flatten ++ b.opening) ++ s.body ++ String.ofList rest := by
    rw [hshow.body, ← String.ofList_append, ← String.ofList_append, ← htext, String.ofList_toList]
  refine ⟨?_, ?_, b.before, after, b.opening, ?_⟩
  · rw [hstart, hbody, hparts, String.utf8ByteSize_append, String.utf8ByteSize_append]
    exact Nat.le_add_right _ _
  · rw [hstart, hbody]
    conv_lhs => rw [hparts]
    exact Text.extract_middle _ _ _
  · obtain ⟨fence, hread, -⟩ := hshow.info
    refine ⟨fence, hlines, hread, hshow.offset, fun hlast => ?_⟩
    rw [Text.count_newline hlines (List.mem_of_getLast? hlast), hshow.line]

/-- A closed part with a character of two bytes, and a block that is left open behind it. -/
theorem extract_places_open :
    AllClosed "```\né\r\n```\n".toList ∧ Text.EndsLine "```\né\r\n```\n".toList ∧
      Sample.extract "a.md" ("```\né\r\n```\n" ++ "\n~~~swift\nx") =
        [{ path := "a.md", info := "", line := 2, offset := 4, len := 4, body := "é\r\n" },
          { path := "a.md", info := "swift", line := 6, offset := 22, len := 1, body := "x" }] := by
  have hopening : Fence.Reads ⟨'\x60', 3, []⟩ (Sample.bareLine "```\n".toList) :=
    Fence.ofLine?_eq_some_iff.1 (by decide)
  have hclosed : AllClosed "```\né\r\n```\n".toList :=
    ⟨[.opening, .body, .closing], .opening hopening
      (.body (mt Fence.isClosedBy_iff.2 (by decide)) (.closing (Fence.isClosedBy_iff.1 (by decide)) (.done _)))⟩
  have hend : Text.EndsLine "```\né\r\n```\n".toList := by
    rintro c ⟨⟩
    rfl
  refine ⟨hclosed, hend, ?_⟩
  rw [(extract_places "a.md").2 _ _ hclosed hend]
  decide

end SwiftForge.Docs
