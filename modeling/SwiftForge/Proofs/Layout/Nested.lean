import SwiftForge.Proofs.Layout.Lines

/-! Which characters a text holds apart from its layout, and texts whose brackets nest. The characters of an inline
    text are those of its pieces, the characters of fragments those of all their lines, at any level. A nested text
    is built by putting texts after each other and between brackets; it stays on one line. -/

namespace SwiftForge

/-! ### Brackets -/

inductive Bracket where
  | round
  | square
  | curly
deriving DecidableEq, Repr

namespace Bracket

def opening : Bracket → Char
  | .round => '('
  | .square => '['
  | .curly => '\x7b'

def closing : Bracket → Char
  | .round => ')'
  | .square => ']'
  | .curly => '\x7d'

end Bracket

def isBracket (c : Char) : Bool := c ∈ ['(', ')', '[', ']', '\x7b', '\x7d']

/-- Texts on one line in which brackets nest. A bracket that `A` allows may also stand by itself. -/
inductive Nested (A : Char → Prop) : List Char → Prop where
  | nil : Nested A []
  | char {c : Char} : c ≠ '\n' → (isBracket c → A c) → Nested A [c]
  | append {u v : List Char} : Nested A u → Nested A v → Nested A (u ++ v)
  | enclosed (b : Bracket) {u : List Char} : Nested A u → Nested A (b.opening :: u ++ [b.closing])

/-! ### Characters -/

/-- The characters of a text on all its physical lines. -/
def Text.flat (s : String) : List Char := s.toList.filter (· ≠ '\n')

def Line.chars (lines : List Line) : List Char := lines.flatMap fun line => line.text.toList

def Piece.chars : Piece → List Char
  | .text s => s.toList
  | .feed _ => []

def Inline.chars (t : Inline) : List Char := t.pieces.flatMap Piece.chars

mutual

/-- The characters of a fragment, line by line. -/
def Fragment.chars : Fragment → List Char
  | .line text => text.chars
  | .blank => []
  | .block header body close =>
    header.chars ++ charsOf body ++
      match close with
      | some text => text.chars
      | none => []
  | .indented body => charsOf body
  | .comment text => Text.flat (commentText "//" text)
  | .docComment text => Text.flat (commentText "///" text)

def Fragment.charsOf : List Fragment → List Char
  | [] => []
  | f :: rest => f.chars ++ charsOf rest

end

namespace Text

@[simp] theorem flat_append (a b : String) : flat (a ++ b) = flat a ++ flat b := by
  simp [flat]

/-- The parts of a text hold all its characters but the separators. -/
theorem flatten_splitAt (sep : Char) (cs : List Char) : (splitAt sep cs).flatten = cs.filter (· ≠ sep) := by
  induction cs with
  | nil => rfl
  | cons c rest ih =>
    obtain ⟨part, parts, h⟩ := List.exists_cons_of_ne_nil (splitAt_ne_nil sep rest)
    rw [h, List.flatten_cons] at ih
    by_cases hc : c = sep
    · simp [splitAt, hc, h, ih]
    · simp [splitAt, hc, h, ih]

theorem flatMap_physicalLines (s : String) : (physicalLines s).flatMap String.toList = flat s := by
  have hparts := flatten_splitAt '\n' s.toList
  rw [physicalLines, List.flatMap_map, flat, ← hparts, List.flatten_eq_flatMap]
  simp

end Text

namespace Line

@[simp] theorem chars_append (a b : List Line) : chars (a ++ b) = chars a ++ chars b := List.flatMap_append

end Line

namespace Inline

@[simp] theorem chars_append (a b : Inline) : (a ++ b).chars = a.chars ++ b.chars := List.flatMap_append

@[simp] theorem chars_ofText (s : String) : (ofText s).chars = Text.flat s := by
  have hparts : ∀ parts : List String, (piecesOf parts).flatMap Piece.chars = parts.flatMap String.toList := by
    intro parts
    induction parts with
    | nil => rfl
    | cons part rest ih =>
      cases rest with
      | nil => simp [piecesOf, Piece.chars]
      | cons next rest => simpa [piecesOf, Piece.chars] using ih
  rw [chars, ofText, hparts, Text.flatMap_physicalLines]

@[simp] theorem chars_block (opening : Inline) (body : List Line) (closing : Inline) :
    (block opening body closing).chars = opening.chars ++ Line.chars body ++ closing.chars := by
  have hbody : (⟨body.flatMap fun line => [.feed (line.depth + 1), .text line.text]⟩ : Inline).chars =
      Line.chars body := by
    simp [chars, Line.chars, Piece.chars, List.flatMap_assoc]
  have hfeed : (⟨[.feed 0]⟩ : Inline).chars = [] := rfl
  rw [block, chars_append, chars_append, chars_append, hbody, hfeed, List.append_nil]

theorem chars_lines (base : Nat) (t : Inline) : Line.chars (t.lines base) = t.chars := by
  have hfrom : ∀ (current : Line) (pieces : List Piece),
      Line.chars (linesFrom base current pieces) = current.text.toList ++ pieces.flatMap Piece.chars := by
    intro current pieces
    induction pieces generalizing current with
    | nil => simp [linesFrom, Line.chars]
    | cons piece pieces ih =>
      cases piece with
      | text s => simp [linesFrom, ih, Piece.chars]
      | feed depth =>
        rw [linesFrom, Line.chars, List.flatMap_cons, ← Line.chars, ih]
        simp [Piece.chars]
  exact hfrom ⟨base, ""⟩ t.pieces

end Inline

namespace Fragment

@[simp] theorem charsOf_append (fs gs : List Fragment) : charsOf (fs ++ gs) = charsOf fs ++ charsOf gs := by
  induction fs with
  | nil => rfl
  | cons f fs ih => rw [List.cons_append, charsOf, charsOf, ih, List.append_assoc]

theorem chars_commentLines (depth : Nat) (mark text : String) :
    Line.chars (commentLines depth mark text) = Text.flat (commentText mark text) := by
  rw [← Text.flatMap_physicalLines, commentLines]
  cases Text.physicalLines (commentText mark text) with
  | nil => rfl
  | cons first rest => simp [Line.chars, List.flatMap_map]

mutual

/-- The level at which a fragment stands makes no difference to its characters. -/
theorem chars_lines (depth : Nat) : (f : Fragment) → Line.chars (f.lines depth) = f.chars
  | .line text => by rw [lines, chars, text.chars_lines]
  | .blank => by rw [lines, chars, Line.chars]; rfl
  | .block header body close => by
    have hbody := chars_linesOf (depth + 1) body
    cases close with
    | none => simp [lines, chars, header.chars_lines, hbody]
    | some text => simp [lines, chars, header.chars_lines, text.chars_lines, hbody]
  | .indented body => by rw [lines, chars, chars_linesOf (depth + 1) body]
  | .comment text => by rw [lines, chars, chars_commentLines]
  | .docComment text => by rw [lines, chars, chars_commentLines]

theorem chars_linesOf (depth : Nat) : (fs : List Fragment) → Line.chars (linesOf depth fs) = charsOf fs
  | [] => rfl
  | f :: rest => by rw [linesOf, charsOf, Line.chars_append, chars_lines depth f, chars_linesOf depth rest]

end

/-- What an `else` chain holds: each header and body in turn, and the brace that closes the last. -/
theorem charsOf_chain (block : Inline × List Fragment) (blocks : List (Inline × List Fragment)) :
    charsOf (chain (block :: blocks)) =
      (block :: blocks).flatMap (fun b => b.1.chars ++ charsOf b.2) ++ ['\x7d'] := by
  induction blocks generalizing block with
  | nil =>
    simp [chain, braced, charsOf, chars]
    rfl
  | cons next rest ih => simp [chain, charsOf, chars, ih]

end Fragment

/-! ### Nested texts -/

section

variable {A : Char → Prop}

/-- A text holds only brackets that `A` allows. -/
def Permits (A : Char → Prop) (s : String) : Prop := ∀ c ∈ s.toList, isBracket c → A c

def PermitsAll (A : Char → Prop) (texts : List String) : Prop := ∀ s ∈ texts, Permits A s

@[simp] theorem permitsAll_nil : PermitsAll A [] := by simp [PermitsAll]

@[simp] theorem permitsAll_cons (s : String) (texts : List String) :
    PermitsAll A (s :: texts) ↔ Permits A s ∧ PermitsAll A texts := by
  simp [PermitsAll]

@[simp] theorem permitsAll_append (a b : List String) :
    PermitsAll A (a ++ b) ↔ PermitsAll A a ∧ PermitsAll A b := by
  simp [PermitsAll, or_imp, forall_and]

theorem PermitsAll.flatMap {α : Type} {f : α → List String} {xs : List α} (h : PermitsAll A (xs.flatMap f)) {x : α}
    (hx : x ∈ xs) : PermitsAll A (f x) := fun s hs => h s (List.mem_flatMap.2 ⟨x, hx, hs⟩)

/-- The characters of a text nest. -/
def Text.Nests (A : Char → Prop) (s : String) : Prop := Nested A (flat s)

def Inline.Nests (A : Char → Prop) (t : Inline) : Prop := Nested A t.chars

def Fragment.Nest (A : Char → Prop) (fs : List Fragment) : Prop := Nested A (charsOf fs)

/-- The text leaves one brace open. -/
def Opens (A : Char → Prop) (cs : List Char) : Prop := ∃ u, Nested A u ∧ cs = u ++ ['\x7b']

/-- The text closes a brace and opens the next. -/
def Reopens (A : Char → Prop) (cs : List Char) : Prop := ∃ u, Opens A u ∧ cs = '\x7d' :: u

theorem Nested.of_forall {cs : List Char} (h : ∀ c ∈ cs, c ≠ '\n' ∧ (isBracket c → A c)) : Nested A cs := by
  induction cs with
  | nil => exact .nil
  | cons c cs ih =>
    obtain ⟨hc, hA⟩ := h c (by simp)
    exact (Nested.char hc hA).append (ih fun d hd => h d (List.mem_cons_of_mem _ hd))

theorem Nested.flatMap {α : Type} {f : α → List Char} {xs : List α} (h : ∀ x ∈ xs, Nested A (f x)) :
    Nested A (xs.flatMap f) := by
  induction xs with
  | nil => exact .nil
  | cons x xs ih =>
    rw [List.flatMap_cons]
    exact (h x (by simp)).append (ih fun y hy => h y (List.mem_cons_of_mem _ hy))

theorem Nested.braces {u : List Char} (h : Nested A u) : Nested A ('\x7b' :: u ++ ['\x7d']) := h.enclosed .curly

/-- A nested text stays on one line. -/
theorem Nested.newline_not_mem {cs : List Char} (h : Nested A cs) : '\n' ∉ cs := by
  induction h with
  | nil => simp
  | char hc _ => simpa using hc.symm
  | append _ _ ihu ihv => simp [ihu, ihv]
  | enclosed b _ ih => cases b <;> simp [Bracket.opening, Bracket.closing, ih]

/-- Blocks after each other: the brace that a header opens is closed by the next header, the last one at the end. -/
theorem Nested.blocks {header body : List Char} {blocks : List (List Char × List Char)} (hheader : Opens A header)
    (hbody : Nested A body) (hblocks : ∀ b ∈ blocks, Reopens A b.1 ∧ Nested A b.2) :
    Nested A (header ++ body ++ blocks.flatMap (fun b => b.1 ++ b.2) ++ ['\x7d']) := by
  induction blocks generalizing header body with
  | nil =>
    obtain ⟨u, hu, rfl⟩ := hheader
    have hclosed := hu.append (hbody.braces)
    simpa using hclosed
  | cons next rest ih =>
    obtain ⟨u, hu, rfl⟩ := hheader
    obtain ⟨⟨v, hv, hnext⟩, hnextBody⟩ := hblocks next (by simp)
    have hclosed := hu.append (hbody.braces)
    -- Without the brace that closes the block before it, the next header opens a block like the first.
    have hrest := ih hv hnextBody fun b hb => hblocks b (List.mem_cons_of_mem _ hb)
    simpa [hnext] using hclosed.append hrest

/-- A text without brackets of its own. -/
theorem Nested.plain {cs : List Char} (h : cs.all (fun c => c ≠ '\n' && !isBracket c) = true) : Nested A cs := by
  refine .of_forall fun c hc => ?_
  have hplain := List.all_eq_true.1 h c hc
  simp only [Bool.and_eq_true, decide_eq_true_eq, Bool.not_eq_true'] at hplain
  exact ⟨hplain.1, fun hb => by rw [hplain.2] at hb; cases hb⟩

namespace Text

theorem nests_empty : Nests A "" := .nil

theorem nests_word {s : String} (h : s.toList.all (fun c => !isBracket c) = true) : Nests A s := by
  refine .of_forall fun c hc => ?_
  obtain ⟨hc, hn⟩ := List.mem_filter.1 hc
  have hplain := List.all_eq_true.1 h c hc
  exact ⟨by simpa using hn, fun hb => by simp [hb] at hplain⟩

theorem nests_of_permits {s : String} (h : Permits A s) : Nests A s := by
  refine .of_forall fun c hc => ?_
  obtain ⟨hc, hn⟩ := List.mem_filter.1 hc
  exact ⟨by simpa using hn, h c hc⟩

theorem nests_ofList {cs : List Char} (h : Nested A cs) : Nests A (String.ofList cs) := by
  have hflat : flat (String.ofList cs) = cs := by
    rw [flat, String.toList_ofList, List.filter_eq_self]
    intro c hc
    have hne : c ≠ '\n' := fun e => h.newline_not_mem (e ▸ hc)
    simpa using hne
  rwa [Nests, hflat]

theorem Nests.append {a b : String} (ha : Nests A a) (hb : Nests A b) : Nests A (a ++ b) := by
  rw [Nests, flat_append]
  exact Nested.append ha hb

theorem Nests.round {s : String} (h : Nests A s) : Nests A ("(" ++ s ++ ")") := by
  rw [Nests, flat_append, flat_append]
  exact Nested.enclosed .round h

theorem Nests.square {s : String} (h : Nests A s) : Nests A ("[" ++ s ++ "]") := by
  rw [Nests, flat_append, flat_append]
  exact Nested.enclosed .square h

theorem nests_joinWith {sep : String} (hsep : Nests A sep) {texts : List String} (h : ∀ s ∈ texts, Nests A s) :
    Nests A (joinWith sep texts) := by
  induction texts with
  | nil => exact nests_empty
  | cons s rest ih =>
    cases rest with
    | nil => exact h s (by simp)
    | cons next rest =>
      exact ((h s (by simp)).append hsep).append (ih fun t ht => h t (List.mem_cons_of_mem _ ht))

end Text

namespace Inline

theorem nests_empty : (∅ : Inline).Nests A := .nil

theorem nests_ofText {s : String} (h : Text.Nests A s) : (ofText s).Nests A := by
  rw [Nests, chars_ofText]
  exact h

theorem nests_word {s : String} (h : s.toList.all (fun c => !isBracket c) = true) : (ofText s).Nests A :=
  nests_ofText (Text.nests_word h)

theorem Nests.append {a b : Inline} (ha : a.Nests A) (hb : b.Nests A) : (a ++ b).Nests A := by
  rw [Nests, chars_append]
  exact Nested.append ha hb

theorem Nests.round {t : Inline} (h : t.Nests A) : (ofText "(" ++ t ++ ofText ")").Nests A := by
  simp only [Nests, chars_append, chars_ofText]
  exact Nested.enclosed .round h

theorem Nests.square {t : Inline} (h : t.Nests A) : (ofText "[" ++ t ++ ofText "]").Nests A := by
  simp only [Nests, chars_append, chars_ofText]
  exact Nested.enclosed .square h

theorem nests_joinWith {texts : List Inline} (h : ∀ t ∈ texts, t.Nests A) : (joinWith ", " texts).Nests A := by
  induction texts with
  | nil => exact nests_empty
  | cons t rest ih =>
    cases rest with
    | nil => exact h t (by simp)
    | cons next rest =>
      exact ((h t (by simp)).append (nests_word rfl)).append (ih fun u hu => h u (List.mem_cons_of_mem _ hu))

/-- Text before a word that ends with a brace opens it. -/
theorem Nests.opens_word {word : String} {lead : List Char} (hlead : Nested A lead)
    (hword : Text.flat word = lead ++ ['\x7b']) {t : Inline} (h : t.Nests A) : Opens A (t ++ ofText word).chars := by
  refine ⟨t.chars ++ lead, Nested.append h hlead, ?_⟩
  rw [chars_append, chars_ofText, hword, List.append_assoc]

theorem Nests.opens {t : Inline} (h : t.Nests A) : Opens A (t ++ ofText " \x7b").chars :=
  h.opens_word (.plain rfl : Nested A [' ']) rfl

end Inline

theorem Text.Nests.opens {s : String} (h : Nests A s) : Opens A (flat (s ++ " \x7b")) := by
  refine ⟨flat s ++ [' '], Nested.append h (.plain rfl), ?_⟩
  rw [flat_append, List.append_assoc]
  rfl

namespace Fragment

theorem nest_nil : Nest A [] := .nil

theorem Nest.append {fs gs : List Fragment} (hf : Nest A fs) (hg : Nest A gs) : Nest A (fs ++ gs) := by
  rw [Nest, charsOf_append]
  exact Nested.append hf hg

theorem nest_singleton {f : Fragment} (h : Nested A f.chars) : Nest A [f] := by
  rw [Nest, charsOf, charsOf, List.append_nil]
  exact h

theorem nest_line {t : Inline} (h : t.Nests A) : Nest A [.line t] := by
  refine nest_singleton ?_
  rw [chars]
  exact h

theorem nest_flatMap {α : Type} {f : α → List Fragment} {xs : List α} (h : ∀ x ∈ xs, Nest A (f x)) :
    Nest A (xs.flatMap f) := by
  induction xs with
  | nil => exact nest_nil
  | cons x xs ih =>
    rw [List.flatMap_cons]
    exact (h x (by simp)).append (ih fun y hy => h y (List.mem_cons_of_mem _ hy))

theorem nest_map {α : Type} {f : α → Fragment} {xs : List α} (h : ∀ x ∈ xs, Nested A (f x).chars) :
    Nest A (xs.map f) := by
  rw [List.map_eq_flatMap]
  exact nest_flatMap fun x hx => nest_singleton (h x hx)

/-- Blocks of which each but the first closes the one before it. -/
theorem nest_chain {header : Inline} {body : List Fragment} {blocks : List (Inline × List Fragment)}
    (hheader : Opens A header.chars) (hbody : Nest A body)
    (hblocks : ∀ b ∈ blocks, Reopens A b.1.chars ∧ Nest A b.2) : Nest A (chain ((header, body) :: blocks)) := by
  have hwords : ∀ b ∈ blocks.map fun b => (b.1.chars, charsOf b.2), Reopens A b.1 ∧ Nested A b.2 := by
    intro b hb
    obtain ⟨block, hblock, rfl⟩ := List.mem_map.1 hb
    exact hblocks block hblock
  have h := Nested.blocks hheader hbody hwords
  rw [Nest, charsOf_chain]
  simpa [List.flatMap_map] using h

theorem nest_braced {header : Inline} {body : List Fragment} (hheader : Opens A header.chars) (hbody : Nest A body) :
    Nest A [.braced header body] := nest_chain hheader hbody fun _ h => absurd h List.not_mem_nil

end Fragment

end

end SwiftForge
