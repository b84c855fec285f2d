import SwiftForge.Proofs.Render.Composition
import SwiftForge.Proofs.Render.Nesting

/-! Every bracket of a rendered text is matched: a reader that remembers which brackets are open never meets a closing
    bracket without its partner and ends with none open. Indentation holds no brackets, so what the reader meets are
    the brackets of the lines, and these nest. -/

namespace SwiftForge

/-! ### Reading brackets -/

namespace Bracket

def opened? (c : Char) : Option Bracket :=
  if c = '(' then some .round else if c = '[' then some .square else if c = '\x7b' then some .curly else none

def closed? (c : Char) : Option Bracket :=
  if c = ')' then some .round else if c = ']' then some .square else if c = '\x7d' then some .curly else none

/-- The brackets that are open after a character, the innermost first; `none` if it closes anything but the
    innermost. -/
def meet (stack : List Bracket) (c : Char) : Option (List Bracket) :=
  match opened? c, closed? c, stack with
  | some b, _, stack => some (b :: stack)
  | none, some b, top :: rest => if top = b then some rest else none
  | none, some _, [] => none
  | none, none, stack => some stack

/-- The brackets that are open after a text. -/
def scan (stack : List Bracket) (cs : List Char) : Option (List Bracket) := cs.foldlM meet stack

end Bracket

/-- Every part of the text from its start closes only what is open, in the right order, and the whole of it leaves
    nothing open. -/
structure Matched (text : String) : Prop where
  starts : ∀ part, part <+: text.toList → (Bracket.scan [] part).isSome
  closed : Bracket.scan [] text.toList = some []

namespace Bracket

theorem meet_opening (b : Bracket) (stack : List Bracket) : meet stack b.opening = some (b :: stack) := by
  cases b <;> rfl

theorem meet_closing (b : Bracket) (stack : List Bracket) : meet (b :: stack) b.closing = some stack := by
  cases b <;> rfl

theorem meet_plain {c : Char} (h : isBracket c = false) (stack : List Bracket) : meet stack c = some stack := by
  simp only [isBracket, List.mem_cons, List.not_mem_nil, or_false, decide_eq_false_iff_not, not_or] at h
  simp [meet, opened?, closed?, h]

theorem scan_append (stack : List Bracket) (a b : List Char) :
    scan stack (a ++ b) = (scan stack a).bind fun inner => scan inner b := List.foldlM_append

theorem scan_cons (stack : List Bracket) (c : Char) (cs : List Char) :
    scan stack (c :: cs) = (meet stack c).bind fun inner => scan inner cs := List.foldlM_cons

/-- A nested text leaves open what was open before it. -/
theorem scan_nested {cs : List Char} (h : Nested (fun _ => False) cs) (stack : List Bracket) :
    scan stack cs = some stack := by
  induction h generalizing stack with
  | nil => rfl
  | @char c _ hfree =>
    have hplain : isBracket c = false := by simpa using hfree
    rw [scan_cons, meet_plain hplain]
    rfl
  | append _ _ ihu ihv => rw [scan_append, ihu, Option.bind_some, ihv]
  | enclosed b _ ih =>
    rw [List.cons_append, scan_cons, meet_opening, Option.bind_some, scan_append, ih, Option.bind_some, scan_cons,
      meet_closing]
    rfl

theorem scan_filter (stack : List Bracket) (cs : List Char) : scan stack (cs.filter isBracket) = scan stack cs := by
  induction cs generalizing stack with
  | nil => rfl
  | cons c cs ih =>
    rw [scan_cons]
    by_cases hc : isBracket c = true
    · rw [List.filter_cons_of_pos hc, scan_cons]
      exact congrArg _ (funext ih)
    · rw [List.filter_cons_of_neg hc, meet_plain (by simpa using hc), Option.bind_some, ih]

end Bracket

/-- A text is matched if its brackets are those of a nested text. -/
theorem Matched.of_nested {text : String} {cs : List Char} (h : Nested (fun _ => False) cs)
    (htext : text.toList.filter isBracket = cs.filter isBracket) : Matched text := by
  have hclosed : Bracket.scan [] text.toList = some [] := by
    rw [← Bracket.scan_filter, htext, Bracket.scan_filter, Bracket.scan_nested h]
  refine ⟨fun part hpart => ?_, hclosed⟩
  obtain ⟨rest, hrest⟩ := hpart
  rw [← hrest, Bracket.scan_append] at hclosed
  obtain ⟨inner, hinner, -⟩ := Option.bind_eq_some_iff.1 hclosed
  rw [hinner]
  rfl

/-! ### Brackets of lines -/

theorem Indent.filter_unit (indent : Indent) : indent.unit.toList.filter isBracket = [] := by
  unfold unit
  split <;> decide

namespace Line

variable {unit : String}

theorem filter_leading (h : unit.toList.filter isBracket = []) (n : Nat) :
    (leading unit n).toList.filter isBracket = [] := by
  induction n with
  | zero => rfl
  | succ n ih => rw [leading, String.toList_append, List.filter_append, h, ih, List.nil_append]

theorem filter_shown (h : unit.toList.filter isBracket = []) (line : Line) :
    (line.shown unit).toList.filter isBracket = line.text.toList.filter isBracket := by
  unfold shown
  split
  · rename_i hempty
    rw [String.isEmpty_iff.1 hempty]
  · rw [String.toList_append, List.filter_append, filter_leading h, List.nil_append]

theorem filter_write (h : unit.toList.filter isBracket = []) (line : Line) :
    (line.write unit).toList.filter isBracket = line.text.toList.filter isBracket := by
  rw [write_eq, String.toList_append, List.filter_append, filter_shown h]
  exact List.append_nil _

theorem filter_writeAll (h : unit.toList.filter isBracket = []) (lines : List Line) :
    (writeAll unit lines).toList.filter isBracket = (chars lines).filter isBracket := by
  induction lines with
  | nil => rfl
  | cons line rest ih =>
    rw [writeAll, String.toList_append, List.filter_append, filter_write h, ih, ← List.filter_append]
    rfl

end Line

theorem Inline.filter_write {unit : String} (h : unit.toList.filter isBracket = []) (t : Inline) :
    (t.write unit).toList.filter isBracket = t.chars.filter isBracket := by
  have hpieces : ∀ lines : List Line,
      (writePieces unit lines).toList.filter isBracket = (Line.chars lines).filter isBracket := by
    intro lines
    induction lines with
    | nil => rfl
    | cons line rest ih =>
      cases rest with
      | nil =>
        have hshown : writePieces unit [line] = line.shown unit := rfl
        rw [hshown, Line.filter_shown h]
        simp [Line.chars]
      | cons next rest =>
        rw [writePieces, String.toList_append, List.filter_append, Line.filter_write h, ih, ← List.filter_append]
        rfl
  rw [write, hpieces, chars_lines]

/-! ### Rendered text -/

/-- A text without any of the characters `( ) [ ] { }`. -/
def BracketFree (s : String) : Prop := ∀ c ∈ s.toList, isBracket c = false

theorem permitsAll_of_bracketFree {texts : List String} (h : ∀ s ∈ texts, BracketFree s) :
    PermitsAll (fun _ => False) texts := by
  intro s hs c hc hbracket
  rw [h s hs c hc] at hbracket
  cases hbracket

theorem matched_text {fs : List Fragment} (h : Fragment.Nest (fun _ => False) fs) (indent : Indent) :
    Matched (Line.writeAll indent.unit (Fragment.linesOf 0 fs)) := by
  refine .of_nested h ?_
  rw [Line.filter_writeAll indent.filter_unit, Fragment.chars_linesOf]

/-- If no authored text holds a bracket, the brackets of what is rendered are matched: for lists of nodes, for files and
    for nodes in expression or pattern position. -/
theorem rendered_brackets_match (indent : Indent) :
    (∀ nodes : List Node, (∀ n ∈ nodes, ∀ s ∈ n.authored, BracketFree s) → Matched (render indent nodes).value) ∧
    (∀ file : SourceFile, (∀ s ∈ file.authored, BracketFree s) → Matched (file.render indent).value) ∧
    ∀ (node : Node) (role : Role), (∀ s ∈ node.authored, BracketFree s) →
      Matched (renderInline indent role node).value := by
  refine ⟨fun nodes h => ?_, fun file h => ?_, fun node role h => ?_⟩
  · rw [value_render]
    exact matched_text (nest_statements fun n hn => n.nests (permitsAll_of_bracketFree (h n hn))) indent
  · rw [file.value_render]
    exact matched_text (SourceFile.nest_fragments (permitsAll_of_bracketFree h)) indent
  · have hnests := (node.nests (permitsAll_of_bracketFree h)).inline role
    rw [value_renderInline]
    exact .of_nested hnests (Inline.filter_write indent.filter_unit _)

/-- An `if` chain that starts without conditions; a closure, a `repeat` and two nodes out of place stand in it. -/
def tangled : Node :=
  .ifStmt ⟨[], [.expression (.call (.reference "run") [] (some ⟨{ captures := [⟨.weak, "self"⟩] }, [.blank]⟩) {})]⟩
    [⟨[.expr .empty], [.loop .repeatWhile .blank []]⟩] (some [.expression (.literal (.array [.string "\x01"]))])

theorem rendered_brackets_match_tangled :
    (∀ s ∈ tangled.authored, BracketFree s) ∧ Matched (render .tab [tangled]).value := by
  have hfree : ∀ s ∈ tangled.authored, BracketFree s := by
    have hauthored : tangled.authored = ["self", "run", "\x01"] := by
      simp [tangled, Node.reference, Node.string, Node.authored_eq, Node.own, Expr.own, Literal.own, Condition.own,
        ClosureHead.authored, Effects.authored, authoredOfType?, Node.children, Branch.children, Condition.children,
        Expr.children, Closure.children, Literal.children]
    have hplain : ["self", "run", "\x01"].all (fun s => s.toList.all fun c => !isBracket c) = true := rfl
    rw [hauthored]
    intro s hs c hc
    simpa using List.all_eq_true.1 (List.all_eq_true.1 hplain s hs) c hc
  exact ⟨hfree, (rendered_brackets_match .tab).1 [tangled] (by simpa using hfree)⟩

end SwiftForge
