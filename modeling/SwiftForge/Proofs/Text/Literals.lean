import Mathlib.Algebra.Group.Nat.Defs
import SwiftForge.Render.Header

/-! Reading a string literal of one line, character by character. Between the quotes stand characters for themselves and
    escapes; the reader also knows where an interpolation opens and what no literal may hold. What the renderer writes
    for a text is read as that text, whatever follows. -/

namespace SwiftForge

/-- What a reader of a literal comes to, with the part of the value that it has read. -/
inductive LiteralReading where
  /-- The closing quote, and what follows it. -/
  | closed (value rest : List Char)
  /-- An opening interpolation, and what follows it. -/
  | interpolated (value rest : List Char)
  /-- The end of the line or of the text, or an escape that there is not. -/
  | broken
deriving DecidableEq, Repr

namespace LiteralReading

/-- Where the reader stands between two characters. -/
inductive State where
  | plain
  /-- Behind a backslash. -/
  | escape
  /-- Behind `\u`. -/
  | brace
  /-- Behind some digits of an escape by number. -/
  | number (digits value : Nat)
deriving DecidableEq, Repr

/-- What an escape of one letter stands for. -/
def escaped? : Char → Option Char
  | '"' => some '"'
  | '\\' => some '\\'
  | 'n' => some '\n'
  | 'r' => some '\r'
  | 't' => some '\t'
  | '0' => some '\x00'
  | _ => none

/-- The value of a digit in base sixteen. -/
def hexDigit? (c : Char) : Option Nat :=
  if c.isDigit then some (c.toNat - '0'.toNat)
  else if 'a' ≤ c ∧ c ≤ 'f' then some (c.toNat - 'a'.toNat + 10)
  else if 'A' ≤ c ∧ c ≤ 'F' then some (c.toNat - 'A'.toNat + 10)
  else none

/-- One more character of the value. -/
def cons (c : Char) : LiteralReading → LiteralReading
  | closed value rest => closed (c :: value) rest
  | interpolated value rest => interpolated (c :: value) rest
  | broken => broken

/-- Reads on from a state. An escape by number has one to eight digits and names a character. -/
def readFrom : State → List Char → LiteralReading
  | _, [] => broken
  | .plain, c :: cs =>
    if c = '"' then closed [] cs
    else if c = '\\' then readFrom .escape cs
    else if c = '\n' ∨ c = '\r' then broken
    else cons c (readFrom .plain cs)
  | .escape, c :: cs =>
    if c = '(' then interpolated [] cs
    else if c = 'u' then readFrom .brace cs
    else
      match escaped? c with
      | some d => cons d (readFrom .plain cs)
      | none => broken
  | .brace, c :: cs => if c = '\x7b' then readFrom (.number 0 0) cs else broken
  | .number digits value, c :: cs =>
    if c = '\x7d' then
      if 0 < digits ∧ digits ≤ 8 ∧ value.isValidChar then cons (Char.ofNat value) (readFrom .plain cs) else broken
    else
      match hexDigit? c with
      | some d => readFrom (.number (digits + 1) (16 * value + d)) cs
      | none => broken

/-- Reads a literal from its opening quote. -/
def read : List Char → LiteralReading
  | '"' :: cs => readFrom .plain cs
  | _ => broken

end LiteralReading

/-! ### What is written -/

namespace LiteralReading

variable {rest : List Char}

theorem hexDigit?_digitChar : ∀ n < 16, hexDigit? n.digitChar = some n ∧ n.digitChar ≠ '\x7d' := by decide

/-- The digits of a number are read to the number, behind digits that were read before. -/
theorem readFrom_hexDigits (n digits value : Nat) :
    readFrom (.number digits value) (Text.hexDigits n ++ rest) =
      readFrom (.number (digits + (Text.hexDigits n).length) (value * 16 ^ (Text.hexDigits n).length + n)) rest := by
  induction n using Nat.strongRecOn generalizing digits value rest with
  | ind n ih =>
    have hstep : ∀ (d digits value : Nat), d < 16 → ∀ rest : List Char,
        readFrom (.number digits value) (d.digitChar :: rest) =
          readFrom (.number (digits + 1) (16 * value + d)) rest := by
      intro d digits value hd rest
      obtain ⟨hdigit, hbrace⟩ := hexDigit?_digitChar d hd
      rw [readFrom, if_neg hbrace, hdigit]
    unfold Text.hexDigits at ih ⊢
    by_cases hn : n < 16
    · rw [Nat.toDigits_of_lt_base hn, List.singleton_append, hstep n digits value hn]
      simp [Nat.mul_comm]
    · have hlast : n % 16 < 16 := Nat.mod_lt n (by omega)
      rw [Nat.toDigits_of_base_le (by omega) (by omega), List.append_assoc, List.singleton_append,
        ih (n / 16) (by omega), hstep _ _ _ hlast, List.length_append, List.length_singleton, Nat.pow_succ]
      congr 2
      rw [← Nat.mul_assoc]
      omega

/-- A character by its number is read back. -/
theorem readFrom_numbered (c : Char) :
    readFrom .plain (Text.numbered c ++ rest) = cons c (readFrom .plain rest) := by
  have hvalid : c.toNat.isValidChar := c.valid
  have hshort : (Text.hexDigits c.toNat).length ≤ 8 := by
    refine (Nat.length_toDigits_le_iff (by omega) (by omega)).2 ?_
    unfold Nat.isValidChar at hvalid
    omega
  have hpos : 0 < (Text.hexDigits c.toNat).length := Nat.length_toDigits_pos
  have hdigits := @readFrom_hexDigits ('\x7d' :: rest) c.toNat 0 0
  rw [Nat.zero_add, Nat.zero_mul, Nat.zero_add] at hdigits
  have htext : Text.numbered c ++ rest = '\\' :: 'u' :: '\x7b' :: (Text.hexDigits c.toNat ++ '\x7d' :: rest) := by
    simp [Text.numbered]
  rw [htext]
  change readFrom (.number 0 0) _ = _
  rw [hdigits, readFrom, if_pos rfl, if_pos ⟨hpos, hshort, hvalid⟩, Char.ofNat_toNat]

theorem readFrom_swiftChar (c : Char) : readFrom .plain (swiftChar c ++ rest) = cons c (readFrom .plain rest) := by
  unfold swiftChar
  split
  · rfl
  · rfl
  · rfl
  · rfl
  · rfl
  · rfl
  · rename_i hquote hbackslash hfeed hreturn _ _
    split
    · exact readFrom_numbered c
    · rw [List.singleton_append, readFrom, if_neg hquote, if_neg hbackslash, if_neg (not_or.2 ⟨hfeed, hreturn⟩)]

/-- What the renderer writes for a text is read up to its closing quote, as that text. -/
theorem read_swiftString (s : String) (rest : List Char) :
    read ((swiftString s).toList ++ rest) = closed s.toList rest := by
  have hchars : ∀ cs : List Char, readFrom .plain (cs.flatMap swiftChar ++ '"' :: rest) = closed cs rest := by
    intro cs
    induction cs with
    | nil => rfl
    | cons c cs ih =>
      rw [List.flatMap_cons, List.append_assoc, readFrom_swiftChar, ih]
      rfl
  have htext : (swiftString s).toList ++ rest = '"' :: (s.toList.flatMap swiftChar ++ '"' :: rest) := by
    simp [swiftString]
  rw [htext, read, hchars]

/-- A backslash before a parenthesis opens nothing, and a digit behind a null stays a digit. -/
example : read "\"\\\\(\\07\" + 1".toList = .closed ['\\', '(', '\x00', '7'] " + 1".toList := by decide

end LiteralReading

/-! ### Control characters -/

theorem isControl_hexDigits {n : Nat} {c : Char} (h : c ∈ Text.hexDigits n) : Text.isControl c = false := by
  induction n using Nat.strongRecOn with
  | ind n ih =>
    have hdigit : ∀ m < 16, Text.isControl m.digitChar = false := by decide
    rw [Text.hexDigits, Nat.toDigits_eq_if (by omega)] at h
    split at h
    · rw [List.mem_singleton.1 h]
      exact hdigit n ‹_›
    · rcases List.mem_append.1 h with h | h
      · exact ih (n / 16) (by omega) h
      · rw [List.mem_singleton.1 h]
        exact hdigit _ (Nat.mod_lt _ (by omega))

theorem isControl_swiftChar {c d : Char} (h : d ∈ swiftChar c) : Text.isControl d = false := by
  have hword : ∀ word : List Char, d ∈ word → word.all (fun e => !Text.isControl e) = true → Text.isControl d = false :=
    fun word hd hall => by simpa using List.all_eq_true.1 hall d hd
  unfold swiftChar at h
  split at h
  · exact hword _ h rfl
  · exact hword _ h rfl
  · exact hword _ h rfl
  · exact hword _ h rfl
  · exact hword _ h rfl
  · exact hword _ h rfl
  · split at h
    · simp only [Text.numbered, List.mem_append] at h
      rcases h with (h | h) | h
      · exact hword _ h rfl
      · exact isControl_hexDigits h
      · exact hword _ h rfl
    · rename_i hcontrol
      rw [List.mem_singleton.1 h]
      simpa using hcontrol

/-- A literal holds no control character, so it stays on its line. -/
theorem isControl_swiftString {s : String} : ∀ c ∈ (swiftString s).toList, Text.isControl c = false := by
  intro c hc
  simp [swiftString] at hc
  rcases hc with rfl | ⟨d, -, hd⟩ | rfl
  · rfl
  · exact isControl_swiftChar hd
  · rfl

end SwiftForge
