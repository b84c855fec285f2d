import Mathlib.Data.List.Basic
import SwiftForge.Proofs.Text.Names
import SwiftForge.Tree.TypeRef

/-! The text of a type tells the type. A reader goes through the text once: what follows a closing parenthesis decides
    whether it ended the parameters of a function, a tuple or a function that is made optional. -/

namespace SwiftForge

open Text

/-- The error type of a throwing effect. -/
def Throws.error? : Throws → Option TypeRef
  | .throws error => error
  | .rethrows => none

namespace Effects

/-- Effects by their two parts. -/
def ofParts (isAsync : Bool) (throwing : Option Throws) : Effects :=
  match isAsync, throwing with
  | false, .none => .none
  | false, some t => .throws t
  | true, .none => .async
  | true, some t => .asyncThrows t

theorem ofParts_eq (e : Effects) : ofParts e.isAsync e.throwing? = e := by
  cases e <;> rfl

end Effects

namespace TypeRef

/-! ### Reading -/

/-- A type with the question marks that follow it. -/
def readMarks (t : TypeRef) : List Char → TypeRef × List Char
  | '?' :: cs => readMarks (.optional t) cs
  | cs => (t, cs)

def readAsync (cs : List Char) : Bool × List Char :=
  match " async".toList.isPrefixOf? cs with
  | some cs => (true, cs)
  | none => (false, cs)

mutual

/-- Reads a type and its question marks. -/
def read : Nat → List Char → Option (TypeRef × List Char)
  | 0, _ => none
  | fuel + 1, '[' :: cs => do
    let (first, cs) ← read fuel cs
    match cs with
    | ']' :: cs => some (readMarks (.array first) cs)
    | ':' :: ' ' :: cs => do
      let (value, cs) ← read fuel cs
      match cs with
      | ']' :: cs => some (readMarks (.dictionary first value) cs)
      | _ => none
    | _ => none
  | fuel + 1, '(' :: cs => do
    let (elements, cs) ← readList fuel ')' cs
    match cs with
    | ' ' :: _ => do
      let (isAsync, cs) := readAsync cs
      let (throwing, cs) ← readThrows fuel cs
      let cs ← " -> ".toList.isPrefixOf? cs
      let (returns, cs) ← read fuel cs
      some (.function elements (.ofParts isAsync throwing) returns, cs)
    | _ =>
      match elements with
      | [wrapped] => some (readMarks wrapped cs)
      | _ => some (readMarks (.tuple elements) cs)
  | fuel + 1, cs => readNamed fuel (String.ofList (cs.takeWhile isWord)) (cs.dropWhile isWord)

/-- Reads what follows a name. -/
def readNamed : Nat → String → List Char → Option (TypeRef × List Char)
  | 0, _, _ => none
  | fuel + 1, name, '<' :: cs => do
    let (args, cs) ← readList fuel '>' cs
    some (readMarks (.generic name args) cs)
  | _ + 1, name, cs => some (readMarks (.named name) cs)

/-- Reads types with commas between them, up to a closing character. -/
def readList : Nat → Char → List Char → Option (List TypeRef × List Char)
  | 0, _, _ => none
  | fuel + 1, close, cs => if cs.head? = some close then some ([], cs.tail) else readItems fuel close cs

def readItems : Nat → Char → List Char → Option (List TypeRef × List Char)
  | 0, _, _ => none
  | fuel + 1, close, cs => do
    let (t, cs) ← read fuel cs
    match cs with
    | ',' :: ' ' :: cs => do
      let (rest, cs) ← readItems fuel close cs
      some (t :: rest, cs)
    | c :: cs => if c = close then some ([t], cs) else none
    | [] => none

def readThrows : Nat → List Char → Option (Option Throws × List Char)
  | 0, _ => none
  | fuel + 1, cs =>
    match " throws".toList.isPrefixOf? cs with
    | some ('(' :: cs) => do
      let (error, cs) ← read fuel cs
      match cs with
      | ')' :: cs => some (some (.typed error), cs)
      | _ => none
    | some cs => some (some .untyped, cs)
    | none =>
      match " rethrows".toList.isPrefixOf? cs with
      | some cs => some (some .rethrows, cs)
      | none => some (none, cs)

end

end TypeRef

/-! ### Types that can be told apart -/

mutual

/-- Names and bases are names, and no tuple has exactly one element, also in the error type of a function. -/
def TypeRef.isPlain : TypeRef → Bool
  | .named name => isName name
  | .optional wrapped => wrapped.isPlain
  | .array element => element.isPlain
  | .dictionary key value => key.isPlain && value.isPlain
  | .tuple elements => elements.length != 1 && TypeRef.arePlain elements
  | .generic base args => isName base && TypeRef.arePlain args
  | .function params effects returns => TypeRef.arePlain params && effects.isPlain && returns.isPlain

def TypeRef.arePlain : List TypeRef → Bool
  | [] => true
  | t :: rest => t.isPlain && TypeRef.arePlain rest

def Throws.isPlain : Throws → Bool
  | .throws (.some error) => error.isPlain
  | _ => true

def Effects.isPlain : Effects → Bool
  | .throws t => t.isPlain
  | .asyncThrows t => t.isPlain
  | _ => true

end

namespace TypeRef

/-! ### Reading what is written -/

/-- What closes or separates types. -/
def isEnd (c : Char) : Bool := c ∈ [')', ']', ',', ':', '>']

/-- What may follow the text of a type: its end, or a question mark unless the type is a function. -/
def EndsText (t : TypeRef) (rest : List Char) : Prop :=
  ∀ c ∈ rest.head?, isEnd c = true ∨ c = '?' ∧ t.isFunction = false

def EndsAll (rest : List Char) : Prop := ∀ c ∈ rest.head?, isEnd c = true

/-- What closes a list of types. -/
def Closes (c : Char) : Prop := c = ')' ∨ c = '>'

theorem endsAll_cons {c : Char} {cs : List Char} (h : isEnd c = true) : EndsAll (c :: cs) := by
  rintro d ⟨⟩
  exact h

theorem Closes.endsAll {c : Char} (h : Closes c) {cs : List Char} : EndsAll (c :: cs) := by
  rcases h with rfl | rfl <;> exact endsAll_cons rfl

section

variable {t : TypeRef} {rest : List Char}

theorem EndsAll.endsText (h : EndsAll rest) : EndsText t rest := fun c hc => .inl (h c hc)

theorem readMarks_of_ends (h : EndsAll rest) : readMarks t rest = (t, rest) := by
  unfold readMarks
  split
  · exact absurd (h '?' rfl) (by decide)
  · rfl

theorem EndsText.of_isFunction (h : EndsText t rest) (ht : t.isFunction = true) : EndsAll rest := by
  intro c hc
  rcases h c hc with hend | ⟨-, hf⟩
  · exact hend
  · rw [ht] at hf
    cases hf

/-- What may follow a type neither goes on with a name nor opens a list. -/
theorem EndsText.continues (h : EndsText t rest) :
    StopsAt isWord rest ∧ ∀ c ∈ rest.head?, c ≠ '<' ∧ c ≠ '(' ∧ c ≠ ' ' := by
  have hchar : ∀ c ∈ rest.head?, isWord c = false ∧ c ≠ '<' ∧ c ≠ '(' ∧ c ≠ ' ' := by
    intro c hc
    rcases h c hc with hend | ⟨rfl, -⟩
    · simp only [isEnd, List.mem_cons, List.not_mem_nil, or_false, decide_eq_true_eq] at hend
      rcases hend with rfl | rfl | rfl | rfl | rfl <;> decide
    · decide
  exact ⟨fun c hc => (hchar c hc).1, fun c hc => (hchar c hc).2⟩

end

/-- A text that starts with a name is read to the end of the name. -/
theorem read_name (fuel : Nat) {name : String} (hname : isName name = true) {rest : List Char}
    (hrest : StopsAt isWord rest) : read (fuel + 1) (name.toList ++ rest) = readNamed fuel name rest := by
  have hword := isWord_of_mem_name hname
  obtain ⟨c, cs, hcs, hc⟩ := exists_head_of_name hname
  rw [read, takeWhile_append_stop hword hrest, dropWhile_append_stop hword hrest, String.ofList_toList]
  -- A name does not start like a list.
  · intro rest heq
    rw [hcs] at heq
    cases heq
    exact absurd hc (by decide)
  · intro rest heq
    rw [hcs] at heq
    cases heq
    exact absurd hc (by decide)

theorem not_closes_of_isWord {c : Char} (h : isWord c = true) : ¬Closes c := by
  rintro (rfl | rfl) <;> exact absurd h (by decide)

/-- No text of a type starts with a character that closes a list. -/
theorem exists_head_text : (t : TypeRef) → t.isPlain = true → ∃ c cs, t.text.toList = c :: cs ∧ ¬Closes c
  | .named name, h => by
    obtain ⟨c, cs, hcs, hc⟩ := exists_head_of_name h
    exact ⟨c, cs, hcs, not_closes_of_isWord hc⟩
  | .optional wrapped, h => by
    rw [text]
    split
    · exact ⟨'(', wrapped.text.toList ++ [')', '?'], by simp, by simp [Closes]⟩
    · obtain ⟨c, cs, hcs, hc⟩ := exists_head_text wrapped h
      exact ⟨c, cs ++ ['?'], by simp [hcs], hc⟩
  | .array element, _ => ⟨'[', _, by rw [text]; simp; rfl, by simp [Closes]⟩
  | .dictionary key value, _ => ⟨'[', _, by rw [text]; simp; rfl, by simp [Closes]⟩
  | .tuple elements, _ => ⟨'(', _, by rw [text]; simp; rfl, by simp [Closes]⟩
  | .generic base args, h => by
    rw [isPlain, Bool.and_eq_true] at h
    obtain ⟨c, cs, hcs, hc⟩ := exists_head_of_name h.1
    exact ⟨c, _, by rw [text]; simp [hcs]; rfl, not_closes_of_isWord hc⟩
  | .function params effects returns, _ => ⟨'(', _, by rw [text]; simp; rfl, by simp [Closes]⟩

/-- The reader takes the text of a type for the type, with the question marks that follow. -/
def Reads (t : TypeRef) : Prop :=
  Enough fun fuel => ∀ rest : List Char, t.EndsText rest → read fuel (t.text.toList ++ rest) = some (readMarks t rest)

theorem Reads.upTo {t : TypeRef} (h : t.Reads) :
    Enough fun fuel => ∀ rest : List Char, EndsAll rest → read fuel (t.text.toList ++ rest) = some (t, rest) :=
  h.mono fun fuel hread rest hrest => by rw [hread rest hrest.endsText, readMarks_of_ends hrest]

/-! ### Lists of types -/

section

variable {close : Char} (hclose : Closes close)

include hclose

theorem readItems_texts {t : TypeRef} {ts : List TypeRef} (h : ∀ u ∈ t :: ts, u.Reads) :
    Enough fun fuel => ∀ rest : List Char,
      readItems fuel close ((joinWith ", " (texts (t :: ts))).toList ++ close :: rest) = some (t :: ts, rest) := by
  induction ts generalizing t with
  | nil =>
    refine (h t (by simp)).upTo.step fun fuel ht rest => ?_
    rw [texts, texts, joinWith, readItems, ht _ hclose.endsAll]
    rcases hclose with rfl | rfl <;> simp
  | cons u ts ih =>
    refine ((h t (by simp)).upTo.and (ih fun v hv => h v (List.mem_cons_of_mem _ hv))).step ?_
    rintro fuel ⟨ht, hrest⟩ rest
    have htext : (joinWith ", " (texts (t :: u :: ts))).toList ++ close :: rest =
        t.text.toList ++ ',' :: ' ' :: ((joinWith ", " (texts (u :: ts))).toList ++ close :: rest) := by
      simp [texts]
    rw [htext, readItems, ht _ (endsAll_cons rfl)]
    simp [hrest]

/-- Types are read from their texts with commas between them, up to what closes the list. -/
theorem readList_texts {ts : List TypeRef} (hplain : arePlain ts = true) (h : ∀ t ∈ ts, t.Reads) :
    Enough fun fuel => ∀ rest : List Char,
      readList fuel close ((joinWith ", " (texts ts)).toList ++ close :: rest) = some (ts, rest) := by
  cases ts with
  | nil => exact enough_of_succ fun fuel rest => by simp [readList, texts, joinWith]
  | cons t ts =>
    rw [arePlain, Bool.and_eq_true] at hplain
    obtain ⟨c, cs, hcs, hc⟩ := exists_head_text t hplain.1
    have hne : c ≠ close := by
      rintro rfl
      exact hc hclose
    refine (readItems_texts hclose h).step fun fuel hitems rest => ?_
    have hhead : ((joinWith ", " (texts (t :: ts))).toList ++ close :: rest).head? ≠ some close := by
      cases ts <;> simp [texts, joinWith, hcs, hne]
    rw [readList, if_neg hhead, hitems]

end

/-! ### Effects -/

/-- The keyword of a throwing effect after its blank. -/
def throwsText : Option Throws → String
  | some t => " " ++ t.keyword
  | none => ""

theorem suffix_eq (e : Effects) : e.suffix = (if e.isAsync then " async" else "") ++ throwsText e.throwing? := by
  cases e with
  | asyncThrows t => exact String.append_assoc
  | _ => simp [Effects.suffix, Effects.isAsync, Effects.throwing?, throwsText]

/-- The text of effects and the arrow behind them start with a blank. -/
theorem exists_suffix_arrow (e : Effects) (rest : List Char) :
    ∃ cs, e.suffix.toList ++ (" -> ".toList ++ rest) = ' ' :: cs := by
  cases e <;> exact ⟨_, by simp [Effects.suffix]; rfl⟩

theorem readAsync_suffix (isAsync : Bool) (throwing : Option Throws) (rest : List Char) :
    readAsync ((if isAsync then " async" else "").toList ++ ((throwsText throwing).toList ++ (" -> ".toList ++ rest))) =
      (isAsync, (throwsText throwing).toList ++ (" -> ".toList ++ rest)) := by
  cases isAsync with
  | true => rfl
  | false =>
    rcases throwing with - | ⟨- | error⟩ | - <;> simp [readAsync, throwsText, Throws.keyword, List.isPrefixOf?]

/-- Before an arrow the throwing effect is read, if there is one. -/
theorem readThrows_keyword (o : Option Throws) (h : ∀ t ∈ o, ∀ error ∈ t.error?, error.Reads) :
    Enough fun fuel => ∀ rest : List Char,
      readThrows fuel ((throwsText o).toList ++ (" -> ".toList ++ rest)) = some (o, " -> ".toList ++ rest) := by
  rcases o with - | ⟨- | error⟩ | -
  · exact enough_of_succ fun fuel rest => by simp [readThrows, throwsText, List.isPrefixOf?]
  · refine enough_of_succ fun fuel rest => ?_
    simp [readThrows, throwsText, Throws.keyword, List.isPrefixOf?, Throws.untyped]
  · refine (h _ rfl error rfl).upTo.step fun fuel hread rest => ?_
    have herror := hread (')' :: (" -> ".toList ++ rest)) (endsAll_cons rfl)
    simp at herror
    simp [readThrows, throwsText, Throws.keyword, List.isPrefixOf?, herror, Throws.typed]
  · exact enough_of_succ fun fuel rest => by simp [readThrows, throwsText, Throws.keyword, List.isPrefixOf?]

/-! ### Types -/

namespace Reads

theorem named {name : String} (h : isName name = true) : (named name).Reads := by
  have hnamed : Enough fun fuel => ∀ rest : List Char, EndsText (.named name) rest →
      readNamed fuel name rest = some (readMarks (.named name) rest) := by
    refine enough_of_succ fun fuel rest hrest => ?_
    rw [readNamed]
    rintro cs rfl
    exact (hrest.continues.2 '<' rfl).1 rfl
  refine hnamed.step fun fuel hread rest hrest => ?_
  rw [text, read_name fuel h hrest.continues.1, hread rest hrest]

/-- The parentheses around a function are taken for grouping: one type in them and no arrow behind them. -/
theorem optional {t : TypeRef} (hplain : t.isPlain = true) (h : t.Reads) : (optional t).Reads := by
  cases hfunction : t.isFunction with
  | true =>
    have hone : arePlain [t] = true := by rw [arePlain, arePlain, Bool.and_true, hplain]
    refine (readList_texts (.inl rfl) hone (by simpa using h)).step fun fuel hlist rest _ => ?_
    have hlist := hlist ('?' :: rest)
    rw [texts, texts, joinWith] at hlist
    simp [text, hfunction, read, hlist, readMarks]
  | false =>
    refine h.mono fun fuel hread rest _ => ?_
    have hmark : EndsText t ('?' :: rest) := by
      rintro c ⟨⟩
      exact .inr ⟨rfl, hfunction⟩
    have hread := hread _ hmark
    simpa [text, hfunction, readMarks] using hread

theorem array {t : TypeRef} (h : t.Reads) : (array t).Reads := by
  refine h.upTo.step fun fuel hread rest _ => ?_
  have ht := hread (']' :: rest) (endsAll_cons rfl)
  simp [text, read, ht]

theorem dictionary {key value : TypeRef} (hkey : key.Reads) (hvalue : value.Reads) : (dictionary key value).Reads := by
  refine (hkey.upTo.and hvalue.upTo).step ?_
  rintro fuel ⟨hkey, hvalue⟩ rest -
  have hvalue := hvalue (']' :: rest) (endsAll_cons rfl)
  have hkey := hkey (':' :: ' ' :: (value.text.toList ++ ']' :: rest)) (endsAll_cons rfl)
  simp [text, read, hkey, hvalue]

theorem tuple {ts : List TypeRef} (hone : ts.length ≠ 1) (hplain : arePlain ts = true) (h : ∀ t ∈ ts, t.Reads) :
    (tuple ts).Reads := by
  refine (readList_texts (.inl rfl) hplain h).step fun fuel hlist rest hrest => ?_
  obtain ⟨-, hopen⟩ := hrest.continues
  have htext : (TypeRef.tuple ts).text.toList ++ rest = '(' :: ((joinWith ", " (texts ts)).toList ++ ')' :: rest) := by
    simp [text]
  rw [htext, read, hlist]
  dsimp only [Option.bind_eq_bind, Option.bind_some]
  split
  · exact absurd rfl (hopen ' ' rfl).2.2
  · split
    · exact absurd rfl hone
    · rfl

theorem generic {base : String} {args : List TypeRef} (hbase : isName base = true) (hplain : arePlain args = true)
    (h : ∀ t ∈ args, t.Reads) : (generic base args).Reads := by
  -- One step reads the name and one more opens the list.
  have hnamed : Enough fun fuel => ∀ rest : List Char,
      readNamed fuel base ('<' :: ((joinWith ", " (texts args)).toList ++ '>' :: rest)) =
        some (readMarks (.generic base args) rest) := by
    refine (readList_texts (.inr rfl) hplain h).step fun fuel hargs rest => ?_
    rw [readNamed, hargs]
    rfl
  refine hnamed.step fun fuel hread rest _ => ?_
  have hname := read_name fuel hbase
    (stopsAt_cons rfl : StopsAt isWord ('<' :: ((joinWith ", " (texts args)).toList ++ '>' :: rest)))
  rw [hread] at hname
  simpa [text] using hname

theorem function {params : List TypeRef} {effects : Effects} {returns : TypeRef} (hplain : arePlain params = true)
    (hparams : ∀ t ∈ params, t.Reads) (heffects : ∀ t ∈ effects.throwing?, ∀ error ∈ t.error?, error.Reads)
    (hreturns : returns.Reads) : (function params effects returns).Reads := by
  refine (((readList_texts (.inl rfl) hplain hparams).and (readThrows_keyword effects.throwing? heffects)).and
    hreturns.upTo).step ?_
  rintro fuel ⟨⟨hlist, hthrows⟩, hreturns⟩ rest hrest
  have hend : EndsAll rest := hrest.of_isFunction rfl
  have hasync := readAsync_suffix effects.isAsync effects.throwing? (returns.text.toList ++ rest)
  have harrow : " -> ".toList.isPrefixOf? (" -> ".toList ++ (returns.text.toList ++ rest)) =
      some (returns.text.toList ++ rest) := rfl
  -- The blank behind the parameters tells them from a tuple.
  obtain ⟨cs, hcs⟩ := exists_suffix_arrow effects (returns.text.toList ++ rest)
  rw [← List.append_assoc, ← String.toList_append, ← suffix_eq, hcs] at hasync
  have htext : (TypeRef.function params effects returns).text.toList ++ rest =
      '(' :: ((joinWith ", " (texts params)).toList ++ ')' :: ' ' :: cs) := by
    rw [← hcs]
    simp [text]
  rw [htext, read, hlist]
  simp only [Option.bind_eq_bind, Option.bind_some, hasync, hthrows, harrow, hreturns rest hend, Effects.ofParts_eq]
  rw [readMarks_of_ends hend]

end Reads

mutual

/-- Every plain type is read from its text. -/
theorem reads : (t : TypeRef) → t.isPlain = true → t.Reads
  | .named name, h => .named h
  | .optional wrapped, h => .optional h (reads wrapped h)
  | .array element, h => .array (reads element h)
  | .dictionary key value, h => by
    rw [isPlain, Bool.and_eq_true] at h
    exact .dictionary (reads key h.1) (reads value h.2)
  | .tuple elements, h => by
    rw [isPlain, Bool.and_eq_true] at h
    exact .tuple (by simpa using h.1) h.2 (reads_all elements h.2)
  | .generic base args, h => by
    rw [isPlain, Bool.and_eq_true] at h
    exact .generic h.1 h.2 (reads_all args h.2)
  | .function params effects returns, h => by
    rw [isPlain, Bool.and_eq_true, Bool.and_eq_true] at h
    exact .function h.1.1 (reads_all params h.1.1) (reads_errors effects h.1.2) (reads returns h.2)

theorem reads_all : (ts : List TypeRef) → arePlain ts = true → ∀ t ∈ ts, t.Reads
  | [], _ => by simp
  | t :: ts, h => by
    rw [arePlain, Bool.and_eq_true] at h
    exact List.forall_mem_cons.2 ⟨reads t h.1, reads_all ts h.2⟩

theorem reads_error : (t : Throws) → t.isPlain = true → ∀ error ∈ t.error?, error.Reads
  | .throws (.some error), h => by
    rintro _ ⟨⟩
    exact reads error h
  | .throws .none, _ => by simp [Throws.error?]
  | .rethrows, _ => by simp [Throws.error?]

theorem reads_errors : (e : Effects) → e.isPlain = true → ∀ t ∈ e.throwing?, ∀ error ∈ t.error?, error.Reads
  | .throws t, h => by
    rintro _ ⟨⟩
    exact reads_error t h
  | .asyncThrows t, h => by
    rintro _ ⟨⟩
    exact reads_error t h
  | .none, _ => by simp [Effects.throwing?]
  | .async, _ => by simp [Effects.throwing?]

end

/-- Types that have the same text are the same, if their names are names and no tuple in them has exactly one element:
    the text of such a type is read as this type and nothing else. -/
theorem text_injective {a b : TypeRef} (ha : a.isPlain = true) (hb : b.isPlain = true) (h : a.text = b.text) :
    a = b := by
  have hend : EndsAll [] := by simp [EndsAll]
  obtain ⟨fuel, hfa, hfb⟩ := ((reads a ha).upTo.and (reads b hb).upTo).exists
  have hread := hfa [] hend
  rw [h, hfb [] hend] at hread
  simpa using hread.symm

/-- An optional function with an error type, put together in two ways. -/
def handler (effects : Effects) : TypeRef :=
  .optional (.function [.tuple [], .array (.named "Int")] effects (.optional (.function [] .none (.named "Data"))))

theorem text_injective_handler :
    (handler (.asyncThrows (.typed (.generic "Failure" [.named "Key"])))).isPlain = true ∧
      (handler (.asyncThrows (.typed (.generic "Failure" [.named "Key"])))).text =
        "(((), [Int]) async throws(Failure<Key>) -> (() -> Data)?)?" ∧
      handler (.asyncThrows (.typed (.generic "Failure" [.named "Key"]))) =
        handler (.withAsync (.withThrows (.typed (.generic "Failure" [.named "Key"])) (.throws .untyped))) := by
  refine ⟨by decide, by decide, text_injective (by decide) (by decide) (by decide)⟩

end TypeRef

end SwiftForge
