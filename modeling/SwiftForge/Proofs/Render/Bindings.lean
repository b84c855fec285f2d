import SwiftForge.Proofs.Layout.Blocks
import SwiftForge.Proofs.Render.Composition

/-! What stands between `for` and `in`. A pattern without cases and expressions in it binds its names as they are; any
    other has to be matched as a whole, behind `case` and with its names bound by `let`. A tuple hands the choice on to
    its elements, so a tuple with a case in it gets the keyword inside its parentheses. -/

namespace SwiftForge

open Logged (value_bind value_pure)

/-! ### Bindings -/

mutual

/-- No case and no expression is in the pattern, at any depth. -/
def Pattern.isPlain : Pattern → Bool
  | .identifier _ | .wildcard => true
  | .enumCase .. | .expression _ => false
  | .tuple elements => Pattern.arePlain elements

def Pattern.arePlain : List Pattern → Bool
  | [] => true
  | p :: rest => p.isPlain && Pattern.arePlain rest

end

mutual

/-- The text of a pattern with what `lead` says in front of each identifier. -/
def Pattern.inlineWith (lead : Inline) : Pattern → Logged Inline
  | .identifier name => pure (lead ++ name)
  | .enumCase name bindings => pure (casePatternText name bindings)
  | .wildcard => pure "_"
  | .tuple elements => do
    let elements ← inlinesWith lead elements
    pure ("(" ++ Inline.joinWith ", " elements ++ ")")
  | .expression value => value.inline .expressionPattern

def inlinesWith (lead : Inline) : List Pattern → Logged (List Inline)
  | [] => pure []
  | p :: rest => do
    let here ← p.inlineWith lead
    let after ← inlinesWith lead rest
    pure (here :: after)

end

namespace Pattern

def isTuple : Pattern → Bool
  | .tuple _ => true
  | _ => false

/-- What is well-formed after `for`: a plain pattern without any `let`, any other pattern as it is behind `case`. -/
def wholeBinding (p : Pattern) : Logged Inline :=
  if p.isPlain then p.inlineWith ∅
  else do
    let text ← p.inlineWith "let "
    pure ("case " ++ text)

end Pattern

/-- A `for` loop with a text of its own between `for` and `in`. -/
def forLoop (binding : Logged Inline) (sequence : Node) (filter : Option Node) (body : List Node) :
    Logged (List Fragment) := do
  let binding ← binding
  let sequence ← sequence.inline .loopSequence
  let filter ← optionalInline " where " .loopFilter filter
  let body ← statements body
  pure [.braced ("for " ++ binding ++ " in " ++ sequence ++ filter ++ " \x7b") body]

/-! ### Patterns -/

mutual

/-- With `let` in front of each identifier it is the text of the pattern. -/
theorem Pattern.inlineWith_let : (p : Pattern) → p.inlineWith "let " = p.inline
  | .identifier _ => rfl
  | .enumCase .. => rfl
  | .wildcard => rfl
  | .tuple elements => by rw [Pattern.inlineWith, Pattern.inline, inlinesWith_let elements]
  | .expression _ => rfl

theorem inlinesWith_let : (ps : List Pattern) → inlinesWith "let " ps = patternInlines ps
  | [] => rfl
  | p :: rest => by rw [inlinesWith, patternInlines, p.inlineWith_let, inlinesWith_let rest]

end

mutual

/-- A plain pattern is bound by its text without any `let`. -/
theorem Pattern.bindingInline_of_isPlain : (p : Pattern) → p.isPlain = true → p.bindingInline = p.inlineWith ∅
  | .identifier _, _ => rfl
  | .wildcard, _ => rfl
  | .tuple elements, h => by
    rw [Pattern.bindingInline, Pattern.inlineWith, bindingInlines_of_arePlain elements h]

theorem bindingInlines_of_arePlain : (ps : List Pattern) → Pattern.arePlain ps = true →
    bindingInlines ps = inlinesWith ∅ ps
  | [], _ => rfl
  | p :: rest, h => by
    rw [Pattern.arePlain, Bool.and_eq_true] at h
    rw [bindingInlines, inlinesWith, p.bindingInline_of_isPlain h.1, bindingInlines_of_arePlain rest h.2]

end

theorem Pattern.bindingInline_eq_wholeBinding {p : Pattern} (h : p.isTuple = true → p.isPlain = true) :
    p.bindingInline = p.wholeBinding := by
  cases p with
  | identifier name => rfl
  | wildcard => rfl
  | tuple elements => rw [wholeBinding, if_pos (h rfl), bindingInline_of_isPlain _ (h rfl)]
  | enumCase name bindings => rfl
  | expression value => rfl

/-! ### Loops -/

theorem Inline.exists_linesFrom_cons (base : Nat) (current : Line) (pieces : List Piece) :
    ∃ rest lines, linesFrom base current pieces = ⟨current.depth, current.text ++ rest⟩ :: lines := by
  induction pieces generalizing current with
  | nil => exact ⟨"", [], by rw [linesFrom, String.append_empty]⟩
  | cons piece pieces ih =>
    cases piece with
    | feed depth => exact ⟨"", _, by rw [linesFrom, String.append_empty]⟩
    | text s =>
      obtain ⟨rest, lines, h⟩ := ih ⟨current.depth, current.text ++ s⟩
      exact ⟨s ++ rest, lines, by rw [linesFrom, h, String.append_assoc]⟩

/-- A block starts with the first pieces of its header. -/
theorem exists_text_braced (indent : Indent) {header : Inline} {a b : String} {pieces : List Piece}
    (h : header.pieces = .text a :: .text b :: pieces) (body : List Fragment) :
    ∃ rest, Writer.text indent [.braced header body] = a ++ b ++ rest := by
  obtain ⟨rest, lines, hlines⟩ := Inline.exists_linesFrom_cons 0 ⟨0, a ++ b⟩ pieces
  have hhead : header.lines 0 = ⟨0, a ++ b ++ rest⟩ :: lines := by
    rw [Inline.lines, h, Inline.linesFrom, Inline.linesFrom, String.empty_append]
    exact hlines
  rw [Writer.text_eq, Fragment.linesOf, Fragment.braced, Fragment.lines, hhead, List.cons_append, List.cons_append,
    List.cons_append, Line.writeAll, Line.write_zero, String.append_assoc, String.append_assoc]
  exact ⟨_, rfl⟩

theorem exists_text_forLoop (indent : Indent) {binding : Logged Inline} {first : String} {pieces : List Piece}
    (h : binding.value.pieces = .text first :: pieces) (sequence : Node) (filter : Option Node) (body : List Node) :
    ∃ rest, Writer.text indent (forLoop binding sequence filter body).value = "for " ++ first ++ rest := by
  obtain ⟨⟨_⟩, warnings⟩ := binding
  subst h
  exact exists_text_braced indent rfl _

/-- The parenthesis of a tuple that is not plain stands where `case` should. -/
theorem text_forLoop_ne (indent : Indent) {elements : List Pattern} (h : (Pattern.tuple elements).isPlain = false)
    (sequence : Node) (filter : Option Node) (body : List Node) :
    Writer.text indent (forLoop (Pattern.tuple elements).bindingInline sequence filter body).value ≠
      Writer.text indent (forLoop (Pattern.tuple elements).wholeBinding sequence filter body).value := by
  obtain ⟨here, hhere⟩ := exists_text_forLoop indent
    (rfl : (Pattern.tuple elements).bindingInline.value.pieces = .text "(" :: _) sequence filter body
  have hcase : (Pattern.tuple elements).wholeBinding.value.pieces =
      .text "case " :: ((Pattern.tuple elements).inlineWith "let ").value.pieces := by
    rw [Pattern.wholeBinding, h]
    rfl
  obtain ⟨there, hthere⟩ := exists_text_forLoop indent hcase sequence filter body
  rw [hhere, hthere]
  intro htext
  have hchars := congrArg String.toList htext
  simp only [String.toList_append] at hchars
  cases hchars

/-- A `for` loop has between `for` and `in` what is well-formed there, exactly if its pattern is no tuple or is plain. A
    tuple with a case or an expression in it, at any depth, is written otherwise. -/
theorem forIn_eq_iff (p : Pattern) (sequence : Node) (filter : Option Node) (body : List Node) (indent : Indent) :
    p.inlineWith "let " = p.inline ∧
    ((Node.forIn (.pattern p) sequence filter body).fragments = forLoop p.wholeBinding sequence filter body ↔
      (p.isTuple = true → p.isPlain = true)) ∧
    ((render indent [.forIn (.pattern p) sequence filter body]).value =
        Writer.text indent (forLoop p.wholeBinding sequence filter body).value ↔
      (p.isTuple = true → p.isPlain = true)) := by
  have hloop : (Node.forIn (.pattern p) sequence filter body).fragments =
      forLoop p.bindingInline sequence filter body := rfl
  have hrender : (render indent [.forIn (.pattern p) sequence filter body]).value =
      Writer.text indent (forLoop p.bindingInline sequence filter body).value := by
    rw [value_render, Writer.text_eq, statements, statements, value_bind, hloop]
    simp
  have hequal (h : p.isTuple = true → p.isPlain = true) : p.bindingInline = p.wholeBinding :=
    p.bindingInline_eq_wholeBinding h
  have hdiffer (htext : Writer.text indent (forLoop p.bindingInline sequence filter body).value =
      Writer.text indent (forLoop p.wholeBinding sequence filter body).value) :
      p.isTuple = true → p.isPlain = true := by
    intro htuple
    cases p with
    | tuple elements =>
      by_contra hplain
      exact text_forLoop_ne indent (Bool.eq_false_iff.2 hplain) sequence filter body htext
    | _ => cases htuple
  refine ⟨p.inlineWith_let, ⟨fun h => hdiffer ?_, fun h => by rw [hloop, hequal h]⟩,
    ⟨fun h => hdiffer (hrender.symm.trans h), fun h => by rw [hrender, hequal h]⟩⟩
  rw [← hloop, h]

/-- A case next to a name. -/
def Pattern.caseAndName : Pattern := .tuple [.enumCase "some" ["x"], .identifier "y"]

/-- A tuple with a case in it gets the keyword inside its parentheses, and the name beside the case gets no `let`. -/
theorem forIn_caseAndName :
    (render .swift [.forIn (.pattern .caseAndName) (.reference "xs") none []]).value =
        "for (case .some(let x), y) in xs \x7b\n\x7d\n" ∧
      Pattern.caseAndName.isPlain = false ∧
      Writer.text .swift (forLoop Pattern.caseAndName.wholeBinding (.reference "xs") none []).value =
        "for case (.some(let x), let y) in xs \x7b\n\x7d\n" :=
  ⟨by decide, rfl, by decide⟩

end SwiftForge
