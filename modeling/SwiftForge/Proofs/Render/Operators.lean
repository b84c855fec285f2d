import SwiftForge.Proofs.Render.Written
import SwiftForge.Proofs.Text.Names

/-! What the text of an expression says of its structure. Operators in front of an operand and what follows an operand
    are written next to it without grouping, and a reader lets what follows bind first. So an expression and its settled
    form, in which the operators in front of a chain stand outside of it as one, have the same text, and nothing else
    has. -/

namespace SwiftForge

open Text

/-! ### Expressions -/

/-- An expression put together from names: binary expressions in parentheses, operators in front, marks behind, members
    and calls without labels. -/
inductive Term where
  | name (name : String)
  | binary (lhs : Term) (op : String) (rhs : Term)
  | unary (op : String) (operand : Term)
  | postfixed (operand : Term) (mark : PostfixMark)
  | member (base : Term) (name : String)
  | call (callee : Term) (args : List Term)

namespace Term

mutual

/-- The expression as a node. -/
def node : Term → Node
  | .name s => .reference s
  | .binary lhs op rhs => .expression (.binary lhs.node op rhs.node true)
  | .unary op operand => .expression (.unary op operand.node)
  | .postfixed operand mark => .expression (.postfixed operand.node mark)
  | .member base s => .expression (.member (some base.node) s)
  | .call callee args => .expression (.call callee.node (arguments args) none {})

def arguments : List Term → List Argument
  | [] => []
  | t :: rest => ⟨none, t.node⟩ :: arguments rest

end

mutual

def text : Term → String
  | .name s => s
  | .binary lhs op rhs => "(" ++ (lhs.text ++ " " ++ op ++ " " ++ rhs.text) ++ ")"
  | .unary op operand => op ++ operand.text
  | .postfixed operand mark => operand.text ++ mark.text
  | .member base s => base.text ++ "." ++ s
  | .call callee args => callee.text ++ ("(" ++ joinWith ", " (texts args) ++ ")")

def texts : List Term → List String
  | [] => []
  | t :: rest => t.text :: texts rest

end

/-! ### Names and operators -/

/-- The operator characters beyond ASCII. -/
def operatorRanges : List (Nat × Nat) := [
  (0xa1, 0xa7), (0xa9, 0xa9), (0xab, 0xac), (0xae, 0xae), (0xb0, 0xb1), (0xb6, 0xb6), (0xbb, 0xbb), (0xbf, 0xbf),
  (0xd7, 0xd7), (0xf7, 0xf7), (0x300, 0x36f), (0x1dc0, 0x1dff), (0x2016, 0x2017), (0x2020, 0x2027), (0x2030, 0x203e),
  (0x2041, 0x2053), (0x2055, 0x205e), (0x20d0, 0x20ff), (0x2190, 0x23ff), (0x2500, 0x2775), (0x2794, 0x2bff),
  (0x2e00, 0x2e7f), (0x3001, 0x3003), (0x3008, 0x3020), (0x3030, 0x3030), (0xfe00, 0xfe0f), (0xfe20, 0xfe2f),
  (0xe0100, 0xe01ef)]

def isOperator (c : Char) : Bool :=
  "/=-+!*%<>&|^~?.".toList.contains c || operatorRanges.any fun r => r.1 ≤ c.toNat && c.toNat ≤ r.2

/-- A run of operator characters, at least one of them. -/
def isOperatorText (s : String) : Bool := !s.isEmpty && s.toList.all isOperator

/-- A name that does not start with an operator character. -/
def isIdentifier (s : String) : Bool := isName s && s.toList.head?.all fun c => !isOperator c

mutual

/-- Names are names and operators are operators. -/
def isProper : Term → Bool
  | .name s => isIdentifier s
  | .binary lhs op rhs => lhs.isProper && isOperatorText op && rhs.isProper
  | .unary op operand => isOperatorText op && operand.isProper
  | .postfixed operand _ => operand.isProper
  | .member base s => base.isProper && isName s
  | .call callee args => callee.isProper && areProper args

def areProper : List Term → Bool
  | [] => true
  | t :: rest => t.isProper && areProper rest

end

/-! ### Settled expressions -/

/-- The operators in front of the first operand, together. -/
def lead : Term → String
  | .name _ => ""
  | .binary .. => ""
  | .unary op operand => op ++ operand.lead
  | .postfixed operand _ => operand.lead
  | .member base _ => base.lead
  | .call callee _ => callee.lead

/-- An expression behind operators, if there are any. -/
def led (ops : String) (t : Term) : Term := if ops.isEmpty then t else .unary ops t

mutual

/-- The expression without the operators in front of it, its parts settled. -/
def core : Term → Term
  | .name s => .name s
  | .binary lhs op rhs => .binary (led lhs.lead lhs.core) op (led rhs.lead rhs.core)
  | .unary _ operand => operand.core
  | .postfixed operand mark => .postfixed operand.core mark
  | .member base s => .member base.core s
  | .call callee args => .call callee.core (settledAll args)

def settledAll : List Term → List Term
  | [] => []
  | t :: rest => led t.lead t.core :: settledAll rest

end

/-- The structure that the text of an expression says: what follows an operand belongs to it before the operators in
    front of it do, and operators next to each other are one. -/
def settled (t : Term) : Term := led t.lead t.core

def isUnary : Term → Bool
  | .unary .. => true
  | _ => false

mutual

/-- Nowhere in the expression is an operator put in front of an operand and something else next to the two. -/
def isSettled : Term → Bool
  | .name _ => true
  | .binary lhs _ rhs => lhs.isSettled && rhs.isSettled
  | .unary _ operand => !operand.isUnary && operand.isSettled
  | .postfixed operand _ => !operand.isUnary && operand.isSettled
  | .member base _ => !base.isUnary && base.isSettled
  | .call callee args => !callee.isUnary && callee.isSettled && areSettled args

def areSettled : List Term → Bool
  | [] => true
  | t :: rest => t.isSettled && areSettled rest

end

theorem text_led (ops : String) (t : Term) : (led ops t).text = ops ++ t.text := by
  unfold led
  split
  · rename_i h
    rw [String.isEmpty_iff.1 h, String.empty_append]
  · rfl

mutual

theorem lead_append_core : (t : Term) → t.lead ++ t.core.text = t.text
  | .name s => String.empty_append
  | .binary lhs op rhs => by
    rw [lead, core, text, text, text_led, text_led, lead_append_core lhs, lead_append_core rhs, String.empty_append]
  | .unary op operand => by rw [lead, core, text, String.append_assoc, lead_append_core operand]
  | .postfixed operand mark => by rw [lead, core, text, text, ← String.append_assoc, lead_append_core operand]
  | .member base s => by
    rw [lead, core, text, text, ← String.append_assoc, ← String.append_assoc, lead_append_core base]
  | .call callee args => by
    rw [lead, core, text, text, texts_settledAll args, ← String.append_assoc, lead_append_core callee]

theorem texts_settledAll : (ts : List Term) → texts (settledAll ts) = texts ts
  | [] => rfl
  | t :: rest => by rw [settledAll, texts, texts, text_led, lead_append_core t, texts_settledAll rest]

end

theorem text_settled (t : Term) : t.settled.text = t.text := by
  rw [settled, text_led, lead_append_core]

theorem isUnary_core : (t : Term) → t.core.isUnary = false
  | .name _ => rfl
  | .binary .. => rfl
  | .unary _ operand => isUnary_core operand
  | .postfixed .. => rfl
  | .member .. => rfl
  | .call .. => rfl

theorem isSettled_led (ops : String) {t : Term} (hunary : t.isUnary = false) (h : t.isSettled = true) :
    (led ops t).isSettled = true := by
  unfold led
  split
  · exact h
  · rw [isSettled, hunary, h]
    rfl

mutual

theorem isSettled_core : (t : Term) → t.core.isSettled = true
  | .name _ => rfl
  | .binary lhs _ rhs => by
    rw [core, isSettled, isSettled_led _ (isUnary_core lhs) (isSettled_core lhs),
      isSettled_led _ (isUnary_core rhs) (isSettled_core rhs), Bool.and_true]
  | .unary _ operand => isSettled_core operand
  | .postfixed operand _ => by
    rw [core, isSettled, isUnary_core operand, isSettled_core operand]
    rfl
  | .member base _ => by
    rw [core, isSettled, isUnary_core base, isSettled_core base]
    rfl
  | .call callee args => by
    rw [core, isSettled, isUnary_core callee, isSettled_core callee, areSettled_settledAll args]
    rfl

theorem areSettled_settledAll : (ts : List Term) → areSettled (settledAll ts) = true
  | [] => rfl
  | t :: rest => by
    rw [settledAll, areSettled, isSettled_led _ (isUnary_core t) (isSettled_core t), areSettled_settledAll rest,
      Bool.and_true]

end

theorem isSettled_settled (t : Term) : t.settled.isSettled = true :=
  isSettled_led _ (isUnary_core t) (isSettled_core t)

/-- In a settled expression only an operator application itself has operators in front. -/
theorem lead_eq_empty : (t : Term) → t.isSettled = true → t.isUnary = false → t.lead = ""
  | .name _, _, _ => rfl
  | .binary .., _, _ => rfl
  | .postfixed operand _, h, _ => by
    simp only [isSettled, Bool.and_eq_true, Bool.not_eq_true'] at h
    exact lead_eq_empty operand h.2 h.1
  | .member base _, h, _ => by
    simp only [isSettled, Bool.and_eq_true, Bool.not_eq_true'] at h
    exact lead_eq_empty base h.2 h.1
  | .call callee _, h, _ => by
    simp only [isSettled, Bool.and_eq_true, Bool.not_eq_true'] at h
    exact lead_eq_empty callee h.1.2 h.1.1

theorem settled_eq_core {t : Term} (h : t.isSettled = true) (hunary : t.isUnary = false) : t.settled = t.core := by
  rw [settled, led, lead_eq_empty t h hunary]
  rfl

mutual

theorem settled_eq_self : (t : Term) → t.isProper = true → t.isSettled = true → t.settled = t
  | .name _, _, _ => rfl
  | .binary lhs op rhs, hproper, h => by
    rw [settled_eq_core h rfl, core, ← settled, ← settled]
    simp only [isProper, Bool.and_eq_true] at hproper
    simp only [isSettled, Bool.and_eq_true] at h
    rw [settled_eq_self lhs hproper.1.1 h.1, settled_eq_self rhs hproper.2 h.2]
  | .unary op operand, hproper, h => by
    simp only [isProper, Bool.and_eq_true, isOperatorText, Bool.not_eq_true'] at hproper
    simp only [isSettled, Bool.and_eq_true, Bool.not_eq_true'] at h
    rw [settled, led, lead, core, lead_eq_empty operand h.2 h.1, String.append_empty, hproper.1.1,
      ← settled_eq_core h.2 h.1, settled_eq_self operand hproper.2 h.2]
    rfl
  | .postfixed operand mark, hproper, h => by
    rw [settled_eq_core h rfl, core]
    simp only [isSettled, Bool.and_eq_true, Bool.not_eq_true'] at h
    rw [← settled_eq_core h.2 h.1, settled_eq_self operand hproper h.2]
  | .member base s, hproper, h => by
    rw [settled_eq_core h rfl, core]
    simp only [isProper, Bool.and_eq_true] at hproper
    simp only [isSettled, Bool.and_eq_true, Bool.not_eq_true'] at h
    rw [← settled_eq_core h.2 h.1, settled_eq_self base hproper.1 h.2]
  | .call callee args, hproper, h => by
    rw [settled_eq_core h rfl, core]
    simp only [isProper, Bool.and_eq_true] at hproper
    simp only [isSettled, Bool.and_eq_true, Bool.not_eq_true'] at h
    rw [← settled_eq_core h.1.2 h.1.1, settled_eq_self callee hproper.1 h.1.2, settledAll_eq_self args hproper.2 h.2]

theorem settledAll_eq_self : (ts : List Term) → areProper ts = true → areSettled ts = true → settledAll ts = ts
  | [], _, _ => rfl
  | t :: rest, hproper, h => by
    simp only [areProper, Bool.and_eq_true] at hproper
    simp only [areSettled, Bool.and_eq_true] at h
    rw [settledAll, ← settled, settled_eq_self t hproper.1 h.1, settledAll_eq_self rest hproper.2 h.2]

end

/-! ### Reading -/

/-- Reads an operator between blanks. -/
def readSpaced : List Char → Option (String × List Char)
  | ' ' :: cs =>
    match cs.dropWhile isOperator with
    | ' ' :: rest => some (String.ofList (cs.takeWhile isOperator), rest)
    | _ => none
  | _ => none

mutual

/-- Reads operators, what stands behind them and what follows it. -/
def readOperand : Nat → List Char → Option (Term × List Char)
  | 0, _ => none
  | fuel + 1, cs => do
    let (t, rest) ← readChained fuel (cs.dropWhile isOperator)
    some (led (String.ofList (cs.takeWhile isOperator)) t, rest)

/-- Reads a name or a binary expression and the chain behind it. -/
def readChained : Nat → List Char → Option (Term × List Char)
  | 0, _ => none
  | fuel + 1, '(' :: cs => do
    let (lhs, cs) ← readOperand fuel cs
    let (op, cs) ← readSpaced cs
    let (rhs, cs) ← readOperand fuel cs
    match cs with
    | ')' :: cs => readChain fuel (.binary lhs op rhs) cs
    | _ => none
  | fuel + 1, cs => readChain fuel (.name (String.ofList (cs.takeWhile isWord))) (cs.dropWhile isWord)

/-- Reads marks, members and argument lists. -/
def readChain : Nat → Term → List Char → Option (Term × List Char)
  | 0, _, _ => none
  | fuel + 1, t, '!' :: cs => readChain fuel (.postfixed t .forceUnwrap) cs
  | fuel + 1, t, '?' :: cs => readChain fuel (.postfixed t .optionalChain) cs
  | fuel + 1, t, '.' :: cs =>
    readChain fuel (.member t (String.ofList (cs.takeWhile isWord))) (cs.dropWhile isWord)
  | fuel + 1, t, '(' :: cs => do
    let (args, cs) ← readArguments fuel cs
    readChain fuel (.call t args) cs
  | _ + 1, t, cs => some (t, cs)

def readArguments : Nat → List Char → Option (List Term × List Char)
  | 0, _ => none
  | _ + 1, ')' :: cs => some ([], cs)
  | fuel + 1, cs => readItems fuel cs

def readItems : Nat → List Char → Option (List Term × List Char)
  | 0, _ => none
  | fuel + 1, cs => do
    let (t, cs) ← readOperand fuel cs
    match cs with
    | ')' :: cs => some ([t], cs)
    | ',' :: ' ' :: cs => do
      let (rest, cs) ← readItems fuel cs
      some (t :: rest, cs)
    | _ => none

end

/-! ### Reading what is written -/

/-- What may follow an expression: a blank, a closing parenthesis or a comma. -/
def EndsOperand (rest : List Char) : Prop := ∀ c ∈ rest.head?, c ∈ [' ', ')', ',']

/-- The steps in which the reader comes to the end of a chain. -/
def links : Term → Nat
  | .name _ => 1
  | .binary .. => 1
  | .unary _ operand => operand.links
  | .postfixed operand _ => operand.links + 1
  | .member base _ => base.links + 1
  | .call callee _ => callee.links + 1

/-- The reader takes the text of an expression without the operators in front of it for the settled core, and goes on
    with the chain behind it. -/
def Reads (t : Term) : Prop :=
  Enough fun fuel => ∀ rest : List Char, StopsAt isWord rest →
    readChained (fuel + t.links) (t.core.text.toList ++ rest) = readChain fuel t.core rest

section

variable {t : Term} {rest : List Char}

theorem endsOperand_cons {c : Char} {cs : List Char} (h : c ∈ [' ', ')', ',']) : EndsOperand (c :: cs) := by
  rintro d ⟨⟩
  exact h

theorem EndsOperand.stopsAt (h : EndsOperand rest) : StopsAt isWord rest := by
  intro c hc
  have hchar := h c hc
  simp only [List.mem_cons, List.not_mem_nil, or_false] at hchar
  rcases hchar with rfl | rfl | rfl <;> decide

theorem readChain_of_ends (fuel : Nat) (h : EndsOperand rest) : readChain (fuel + 1) t rest = some (t, rest) := by
  have hne : ∀ c cs, c ∉ [' ', ')', ','] → rest ≠ c :: cs := by
    rintro c cs hc rfl
    exact hc (h c rfl)
  rw [readChain]
  · exact fun cs => hne '!' cs (by decide)
  · exact fun cs => hne '?' cs (by decide)
  · exact fun cs => hne '.' cs (by decide)
  · exact fun cs => hne '(' cs (by decide)

theorem readChain_mark (fuel : Nat) (mark : PostfixMark) :
    readChain (fuel + 1) t (mark.text.toList ++ rest) = readChain fuel (.postfixed t mark) rest := by
  cases mark <;> simp [PostfixMark.text, readChain]

/-- All characters in front of the first operand are operator characters. -/
theorem isOperator_lead : (t : Term) → t.isProper = true → ∀ c ∈ t.lead.toList, isOperator c = true
  | .name _, _ => by simp [lead]
  | .binary .., _ => by simp [lead]
  | .unary op operand, h => by
    simp only [isProper, isOperatorText, Bool.and_eq_true] at h
    rw [lead, String.toList_append]
    exact List.forall_mem_append.2 ⟨List.all_eq_true.1 h.1.2, isOperator_lead operand h.2⟩
  | .postfixed operand _, h => isOperator_lead operand h
  | .member base _, h => by
    rw [isProper, Bool.and_eq_true] at h
    exact isOperator_lead base h.1
  | .call callee _, h => by
    rw [isProper, Bool.and_eq_true] at h
    exact isOperator_lead callee h.1

/-- Behind the operators a name or a parenthesis follows. -/
theorem exists_head_core : (t : Term) → t.isProper = true →
    ∃ c cs, t.core.text.toList = c :: cs ∧ isOperator c = false ∧ c ≠ ')'
  | .name s, h => by
    rw [isProper, isIdentifier, Bool.and_eq_true] at h
    obtain ⟨c, cs, hcs, hc⟩ := exists_head_of_name h.1
    rw [hcs] at h
    refine ⟨c, cs, hcs, by simpa using h.2, ?_⟩
    rintro rfl
    exact absurd hc (by decide)
  | .binary .., _ => ⟨'(', _, by rw [core, text]; simp; rfl, by decide, by decide⟩
  | .unary _ operand, h => by
    rw [isProper, Bool.and_eq_true] at h
    exact exists_head_core operand h.2
  | .postfixed operand mark, h => by
    obtain ⟨c, cs, hcs, hc⟩ := exists_head_core operand h
    exact ⟨c, _, by rw [core, text]; simp [hcs]; rfl, hc⟩
  | .member base s, h => by
    rw [isProper, Bool.and_eq_true] at h
    obtain ⟨c, cs, hcs, hc⟩ := exists_head_core base h.1
    exact ⟨c, _, by rw [core, text]; simp [hcs]; rfl, hc⟩
  | .call callee args, h => by
    rw [isProper, Bool.and_eq_true] at h
    obtain ⟨c, cs, hcs, hc⟩ := exists_head_core callee h.1
    exact ⟨c, _, by rw [core, text]; simp [hcs]; rfl, hc⟩

/-- The text of an expression is read up to where the expression ends, as its settled form. -/
theorem Reads.operand (h : t.Reads) (hproper : t.isProper = true) :
    Enough fun fuel => ∀ rest : List Char, EndsOperand rest →
      readOperand fuel (t.text.toList ++ rest) = some (t.settled, rest) := by
  obtain ⟨c, cs, hcs, hc, -⟩ := exists_head_core t hproper
  have hlead := isOperator_lead t hproper
  refine h.succ.steps (t.links + 2) fun fuel hread rest hrest => ?_
  have hstop : StopsAt isOperator (t.core.text.toList ++ rest) := by
    rw [hcs]
    exact stopsAt_cons hc
  have hfuel : fuel + (t.links + 2) = fuel + 1 + t.links + 1 := by omega
  rw [hfuel, ← lead_append_core t, String.toList_append, List.append_assoc, readOperand,
    takeWhile_append_stop hlead hstop, dropWhile_append_stop hlead hstop, hread rest hrest.stopsAt,
    readChain_of_ends fuel hrest, String.ofList_toList]
  rfl

theorem readSpaced_operator {op : String} (h : isOperatorText op = true) (rest : List Char) :
    readSpaced (' ' :: (op.toList ++ ' ' :: rest)) = some (op, rest) := by
  rw [isOperatorText, Bool.and_eq_true] at h
  have hop := List.all_eq_true.1 h.2
  have hstop : StopsAt isOperator (' ' :: rest) := stopsAt_cons (by decide)
  rw [readSpaced, dropWhile_append_stop hop hstop, takeWhile_append_stop hop hstop, String.ofList_toList]
  rfl

/-- No expression starts with what closes an argument list. -/
theorem head_text_ne (h : t.isProper = true) : ∀ cs, t.text.toList ++ rest ≠ ')' :: cs := by
  obtain ⟨c, cs, hcs, -, hc⟩ := exists_head_core t h
  have hlead := isOperator_lead t h
  rw [← lead_append_core t, String.toList_append, hcs]
  intro rest heq
  cases hl : t.lead.toList with
  | nil =>
    rw [hl] at heq
    cases heq
    exact hc rfl
  | cons d ds =>
    rw [hl] at heq hlead
    cases heq
    exact absurd (hlead ')' (by simp)) (by decide)

/-! ### Argument lists -/

theorem readItems_texts {ts : List Term} (hproper : areProper (t :: ts) = true) (h : ∀ u ∈ t :: ts, u.Reads) :
    Enough fun fuel => ∀ rest : List Char,
      readItems fuel ((joinWith ", " (texts (t :: ts))).toList ++ ')' :: rest) = some (settledAll (t :: ts), rest) := by
  induction ts generalizing t with
  | nil =>
    rw [areProper, Bool.and_eq_true] at hproper
    refine ((h t (by simp)).operand hproper.1).step fun fuel ht rest => ?_
    rw [texts, texts, joinWith, readItems, ht _ (endsOperand_cons (by decide))]
    rfl
  | cons u ts ih =>
    rw [areProper, Bool.and_eq_true] at hproper
    refine (((h t (by simp)).operand hproper.1).and
      (ih hproper.2 fun v hv => h v (List.mem_cons_of_mem _ hv))).step ?_
    rintro fuel ⟨ht, hrest⟩ rest
    have htext : (joinWith ", " (texts (t :: u :: ts))).toList ++ ')' :: rest =
        t.text.toList ++ ',' :: ' ' :: ((joinWith ", " (texts (u :: ts))).toList ++ ')' :: rest) := by
      simp [texts]
    rw [htext, readItems, ht _ (endsOperand_cons (by decide))]
    simp [hrest, settledAll, settled]

theorem readArguments_texts {ts : List Term} (hproper : areProper ts = true) (h : ∀ t ∈ ts, t.Reads) :
    Enough fun fuel => ∀ rest : List Char,
      readArguments fuel ((joinWith ", " (texts ts)).toList ++ ')' :: rest) = some (settledAll ts, rest) := by
  cases ts with
  | nil => exact enough_of_succ fun fuel rest => rfl
  | cons t ts =>
    refine (readItems_texts hproper h).step fun fuel hitems rest => ?_
    rw [areProper, Bool.and_eq_true] at hproper
    rw [readArguments]
    · exact hitems rest
    · cases ts with
      | nil => exact head_text_ne hproper.1
      | cons u ts =>
        rw [texts, texts, toList_joinWith_cons_cons, List.append_assoc]
        exact head_text_ne hproper.1

end

/-! ### One case for each form -/

namespace Reads

theorem name {s : String} (h : isIdentifier s = true) : (name s).Reads := by
  rw [isIdentifier, Bool.and_eq_true] at h
  have hword := isWord_of_mem_name h.1
  obtain ⟨c, cs, hcs, hc⟩ := exists_head_of_name h.1
  refine enough_of_succ fun fuel rest hrest => ?_
  rw [core, text, links, readChained, takeWhile_append_stop hword hrest, dropWhile_append_stop hword hrest,
    String.ofList_toList]
  -- A name does not start with a parenthesis.
  intro rest heq
  rw [hcs] at heq
  cases heq
  exact absurd hc (by decide)

theorem binary {lhs rhs : Term} {op : String} (hop : isOperatorText op = true) (hlproper : lhs.isProper = true)
    (hrproper : rhs.isProper = true) (hlhs : lhs.Reads) (hrhs : rhs.Reads) : (binary lhs op rhs).Reads := by
  refine ((hlhs.operand hlproper).and (hrhs.operand hrproper)).mono ?_
  rintro fuel ⟨hleft, hright⟩ rest -
  have hright := hright (')' :: rest) (endsOperand_cons (by decide))
  have hbetween := readSpaced_operator hop (rhs.text.toList ++ ')' :: rest)
  have hleft := hleft (' ' :: (op.toList ++ ' ' :: (rhs.text.toList ++ ')' :: rest))) (endsOperand_cons (by decide))
  have htext : (Term.binary lhs op rhs).core.text.toList ++ rest =
      '(' :: (lhs.text.toList ++ ' ' :: (op.toList ++ ' ' :: (rhs.text.toList ++ ')' :: rest))) := by
    rw [core, text, text_led, text_led, lead_append_core, lead_append_core]
    simp
  rw [htext, links, readChained, hleft]
  simp [hbetween, hright, core, settled]

theorem postfixed {operand : Term} (h : operand.Reads) (mark : PostfixMark) : (postfixed operand mark).Reads := by
  refine h.succ.mono fun fuel hread rest _ => ?_
  have hstop : StopsAt isWord (mark.text.toList ++ rest) := by cases mark <;> exact stopsAt_cons (by decide)
  have hfuel : fuel + (Term.postfixed operand mark).links = fuel + 1 + operand.links := by rw [links]; omega
  rw [hfuel, core, text, String.toList_append, List.append_assoc, hread _ hstop, readChain_mark]

theorem member {base : Term} {s : String} (hs : isName s = true) (h : base.Reads) : (member base s).Reads := by
  refine h.succ.mono fun fuel hread rest hrest => ?_
  have hword := isWord_of_mem_name hs
  have hstop : StopsAt isWord ('.' :: (s.toList ++ rest)) := stopsAt_cons (by decide)
  have htext : (Term.member base s).core.text.toList ++ rest = base.core.text.toList ++ '.' :: (s.toList ++ rest) := by
    rw [core, text]
    simp
  have hfuel : fuel + (Term.member base s).links = fuel + 1 + base.links := by rw [links]; omega
  rw [hfuel, htext, hread _ hstop, readChain, takeWhile_append_stop hword hrest, dropWhile_append_stop hword hrest,
    String.ofList_toList, core]

theorem call {callee : Term} {args : List Term} (hproper : areProper args = true) (h : callee.Reads)
    (hargs : ∀ t ∈ args, t.Reads) : (call callee args).Reads := by
  refine (h.succ.and (readArguments_texts hproper hargs)).mono ?_
  rintro fuel ⟨hread, hlist⟩ rest -
  have hstop : StopsAt isWord ('(' :: ((joinWith ", " (texts args)).toList ++ ')' :: rest)) := stopsAt_cons (by decide)
  have htext : (Term.call callee args).core.text.toList ++ rest =
      callee.core.text.toList ++ '(' :: ((joinWith ", " (texts args)).toList ++ ')' :: rest) := by
    rw [core, text, texts_settledAll]
    simp
  have hfuel : fuel + (Term.call callee args).links = fuel + 1 + callee.links := by rw [links]; omega
  rw [hfuel, htext, hread _ hstop, readChain, hlist]
  rfl

end Reads

mutual

theorem reads : (t : Term) → t.isProper = true → t.Reads
  | .name _, h => .name h
  | .binary lhs _ rhs, h => by
    simp only [isProper, Bool.and_eq_true] at h
    exact .binary h.1.2 h.1.1 h.2 (reads lhs h.1.1) (reads rhs h.2)
  | .unary _ operand, h => by
    -- The operator is read before, with those behind it.
    rw [isProper, Bool.and_eq_true] at h
    exact reads operand h.2
  | .postfixed operand mark, h => .postfixed (reads operand h) mark
  | .member base _, h => by
    rw [isProper, Bool.and_eq_true] at h
    exact .member h.2 (reads base h.1)
  | .call callee args, h => by
    rw [isProper, Bool.and_eq_true] at h
    exact .call h.2 (reads callee h.1) (reads_all args h.2)

theorem reads_all : (ts : List Term) → areProper ts = true → ∀ t ∈ ts, t.Reads
  | [], _ => by simp
  | t :: rest, h => by
    rw [areProper, Bool.and_eq_true] at h
    exact List.forall_mem_cons.2 ⟨reads t h.1, reads_all rest h.2⟩

end

/-- Two expressions have the same text exactly if they settle to the same: the text is read as the settled form. -/
theorem text_eq_iff_settled_eq {a b : Term} (ha : a.isProper = true) (hb : b.isProper = true) :
    a.text = b.text ↔ a.settled = b.settled := by
  constructor
  · intro h
    have hend : EndsOperand [] := by simp [EndsOperand]
    obtain ⟨fuel, hreada, hreadb⟩ := (((reads a ha).operand ha).and ((reads b hb).operand hb)).exists
    have hread := hreada [] hend
    rw [h, hreadb [] hend] at hread
    simpa using hread.symm
  · intro h
    rw [← text_settled a, h, text_settled]

/-! ### Rendering -/

mutual

/-- In every role an expression is rendered on its line as its text. -/
theorem spells : (t : Term) → (role : Role) → Inline.Spells (t.node.inline role).value.pieces t.text
  | .name s, _ => Inline.spells_ofText s
  | .binary lhs op rhs, _ => by
    have hlhs := (spells lhs .operand).append (Inline.spells_ofText " ")
    have hop := (hlhs.append (Inline.spells_ofText op)).append (Inline.spells_ofText " ")
    rw [text]
    exact ((Inline.spells_ofText "(").append (hop.append (spells rhs .operand))).append (Inline.spells_ofText ")")
  | .unary op operand, _ => (Inline.spells_ofText op).append (spells operand .operand)
  | .postfixed operand mark, _ => (spells operand .operand).append (Inline.spells_ofText mark.text)
  | .member base s, _ => by
    have hbase := (Inline.spells_ofText "").append (spells base .memberBase)
    rw [String.empty_append] at hbase
    exact (hbase.append (Inline.spells_ofText ".")).append (Inline.spells_ofText s)
  | .call callee args, _ => by
    have hcallee := (Inline.spells_ofText "").append (spells callee .callee)
    rw [String.empty_append] at hcallee
    exact hcallee.append (((Inline.spells_ofText "(").append (spells_arguments args)).append (Inline.spells_ofText ")"))

theorem spells_arguments : (ts : List Term) →
    Inline.Spells (Inline.joinWith ", " (argumentInlines (arguments ts)).value).pieces (joinWith ", " (texts ts))
  | [] => .nil
  | [t] => by
    have ht := (Inline.spells_ofText "").append (spells t .callArgument)
    rwa [String.empty_append] at ht
  | t :: u :: rest => by
    have ht := (Inline.spells_ofText "").append (spells t .callArgument)
    rw [String.empty_append] at ht
    exact (ht.append (Inline.spells_ofText ", ")).append (spells_arguments (u :: rest))

end

theorem value_renderInline (t : Term) (indent : Indent) (role : Role) :
    (renderInline indent role t.node).value = t.text := by
  rw [SwiftForge.value_renderInline]
  exact (t.spells role).writtenAs.write_eq

/-- The text of an expression tells its settled form and no more: two expressions have the same text exactly if they
    settle to the same. The settled form has this text too, so of the settled expressions each has a text of its own;
    an expression that is not settled has the text of another one. -/
theorem text_eq_iff {a b : Term} (ha : a.isProper = true) (hb : b.isProper = true) (indent : Indent) :
    ((renderInline indent .expression a.node).value = (renderInline indent .expression b.node).value ↔
      a.settled = b.settled) ∧
    (a.settled.isSettled = true ∧
      (renderInline indent .expression a.settled.node).value = (renderInline indent .expression a.node).value) ∧
    (a.isSettled = true → b.isSettled = true →
      (renderInline indent .expression a.node).value = (renderInline indent .expression b.node).value → a = b) := by
  simp only [value_renderInline]
  refine ⟨text_eq_iff_settled_eq ha hb, ⟨isSettled_settled a, text_settled a⟩, fun hasettled hbsettled htext => ?_⟩
  have h := (text_eq_iff_settled_eq ha hb).1 htext
  rwa [settled_eq_self a ha hasettled, settled_eq_self b hb hbsettled] at h

/-- The negative of `a`, unwrapped. -/
def unwrappedNegative : Term := .postfixed (.unary "-" (.name "a")) .forceUnwrap

/-- The negative of what is unwrapped from `a`. -/
def negativeUnwrapped : Term := .unary "-" (.postfixed (.name "a") .forceUnwrap)

theorem text_eq_iff_unwrappedNegative :
    unwrappedNegative.isProper = true ∧ negativeUnwrapped.isProper = true ∧
      unwrappedNegative.settled = negativeUnwrapped ∧
      ((renderInline .tab .expression unwrappedNegative.node).value =
        (renderInline .tab .expression negativeUnwrapped.node).value ↔
          unwrappedNegative.settled = negativeUnwrapped.settled) :=
  ⟨by decide, by decide, rfl, (text_eq_iff (by decide) (by decide) .tab).1⟩

/-- A mark behind a negative and a negative of what is marked are two trees with one text. -/
theorem text_of_unwrappedNegative :
    unwrappedNegative.isProper = true ∧ negativeUnwrapped.isProper = true ∧
      unwrappedNegative.node ≠ negativeUnwrapped.node ∧
      (renderInline .tab .expression unwrappedNegative.node).value = "-a!" ∧
      (renderInline .tab .expression negativeUnwrapped.node).value = "-a!" := by
  refine ⟨by decide, by decide, ?_, ?_, ?_⟩
  · simp [unwrappedNegative, negativeUnwrapped, node]
  · rw [value_renderInline]
    rfl
  · rw [value_renderInline]
    rfl

end Term

end SwiftForge
