import SwiftForge.Json.Reading
import SwiftForge.Json.Value
import SwiftForge.Proofs.Decimal.Scaling

/-! What is read of the text of a number, whatever follows as long as it does not go on with the number: of an integer
    of at most 64 bits that integer, of a finite double a finite double. Its digits always fit into 64 bits, but they
    are scaled with a rounding at each step, so only some doubles are known to be read as they were. -/

namespace SwiftForge.Reading
open Decimal Double

/-! ### Digits -/

/-- What follows a number in a text does not go on with it. -/
def EndsNumber (rest : List Char) : Prop :=
  ∀ c ∈ rest.head?, c.isDigit = false ∧ c ≠ '.' ∧ c ≠ 'e' ∧ c ≠ 'E'

theorem digitsValue_eq (digits : List Char) : digitsValue digits = Nat.ofDigitChars 10 digits 0 := by
  simp only [digitsValue, Nat.ofDigitChars_eq_foldl, Nat.mul_comm]

theorem digitsValue_append (a b : List Char) :
    digitsValue (a ++ b) = digitsValue a * 10 ^ b.length + digitsValue b := by
  rw [digitsValue_eq, Nat.ofDigitChars_append, Nat.ofDigitChars_eq_ofDigitChars_zero, digitsValue_eq,
    digitsValue_eq, Nat.mul_comm]

theorem digitsValue_digitChars (n : Nat) : digitsValue (digitChars n) = n := by
  rw [digitsValue_eq, digitChars, Nat.ofDigitChars_ten_toDigits]

theorem digitsValue_zeros (k : Nat) : digitsValue (List.replicate k '0') = 0 := by
  rw [digitsValue_eq, Nat.ofDigitChars_replicate_zero, Nat.mul_zero]

theorem isDigit_digitChars {n : Nat} {c : Char} (hc : c ∈ digitChars n) : c.isDigit = true :=
  Nat.isDigit_of_mem_toDigits (by omega) (by omega) hc

theorem digitChars_ne_nil (n : Nat) : digitChars n ≠ [] := Nat.toDigits_ne_nil

/-- A positive number does not start with a zero. -/
theorem head?_digitChars {n : Nat} (hn : 0 < n) : (digitChars n).head? ≠ some '0' := by
  induction n using Nat.strongRecOn with
  | ind n ih =>
    unfold digitChars at ih ⊢
    by_cases h10 : n < 10
    · rw [Nat.toDigits_of_lt_base h10]
      intro h
      have := Nat.toNat_digitChar_sub_48_of_lt_ten h10
      rw [List.head?_cons, Option.some.injEq] at h
      rw [h] at this
      simp at this
      omega
    · rw [Nat.toDigits_of_base_le (by omega) (by omega),
        List.head?_append_of_ne_nil _ Nat.toDigits_ne_nil]
      exact ih (n / 10) (by omega) (by omega)

theorem spanDigits_append {digits rest : List Char} (hd : ∀ c ∈ digits, c.isDigit = true)
    (hr : ∀ c ∈ rest.head?, c.isDigit = false) : spanDigits (digits ++ rest) = (digits, rest) := by
  have hnil : rest.takeWhile Char.isDigit = [] ∧ rest.dropWhile Char.isDigit = rest := by
    cases rest with
    | nil => exact ⟨rfl, rfl⟩
    | cons c rest =>
      have := hr c rfl
      simp [this]
  simp only [spanDigits, List.takeWhile_append_of_pos hd, List.dropWhile_append_of_pos hd, hnil,
    List.append_nil]

theorem le_ofDigitChars (n : Nat) (digits : List Char) : n ≤ Nat.ofDigitChars 10 digits n := by
  rw [Nat.ofDigitChars_eq_ofDigitChars_zero]
  exact (Nat.le_mul_of_pos_left n (Nat.pow_pos (by decide))).trans (Nat.le_add_right _ _)

/-- Digits that stay below the limit are all taken. -/
theorem takeDigits_eq {n : Nat} {digits : List Char} (h : Nat.ofDigitChars 10 digits n < 2 ^ 64) :
    takeDigits n digits = (Nat.ofDigitChars 10 digits n, 0) := by
  induction digits generalizing n with
  | nil => rfl
  | cons c rest ih =>
    rw [Nat.ofDigitChars_cons] at h ⊢
    have hnext : n * 10 + (c.toNat - '0'.toNat) = 10 * n + (c.toNat - '0'.toNat) := by rw [Nat.mul_comm]
    rw [takeDigits, hnext]
    exact (if_pos ((le_ofDigitChars _ rest).trans_lt h)).trans (ih h)

theorem takeDigits_zero {digits : List Char} (h : digitsValue digits < 2 ^ 64) :
    takeDigits 0 digits = (digitsValue digits, 0) := by
  rw [digitsValue_eq] at h ⊢
  exact takeDigits_eq h

/-- Digits of a fraction go on with the whole digits before them. -/
theorem takeDigits_append {whole fraction : List Char} (h : digitsValue (whole ++ fraction) < 2 ^ 64) :
    takeDigits 0 whole = (digitsValue whole, 0) ∧
      takeDigits (digitsValue whole) fraction = (digitsValue (whole ++ fraction), 0) := by
  have happend : digitsValue (whole ++ fraction) = Nat.ofDigitChars 10 fraction (digitsValue whole) := by
    rw [digitsValue_eq, Nat.ofDigitChars_append, digitsValue_eq]
  rw [happend] at h ⊢
  exact ⟨takeDigits_zero ((le_ofDigitChars _ fraction).trans_lt h), takeDigits_eq h⟩

/-- The digits before a point: at least one, and no superfluous zero in front. -/
structure Whole (digits : List Char) : Prop where
  isDigit : ∀ c ∈ digits, c.isDigit = true
  ne_nil : digits ≠ []
  no_zero : digits.head? = some '0' → digits = ['0']

theorem whole_digitChars (n : Nat) : Whole (digitChars n) where
  isDigit _ := isDigit_digitChars
  ne_nil := digitChars_ne_nil n
  no_zero h := by
    rcases Nat.eq_zero_or_pos n with rfl | hn
    · rfl
    · exact absurd h (head?_digitChars hn)

theorem whole_zero : Whole ['0'] := ⟨by simp, by simp, fun _ => rfl⟩

/-! ### Numbers -/

theorem EndsNumber.not_digit {rest : List Char} (h : EndsNumber rest) :
    ∀ c ∈ rest.head?, c.isDigit = false := fun c hc => (h c hc).1

/-- Whole digits that no point follows. -/
theorem readNumber_whole {negative : Bool} {whole rest : List Char} (hw : Whole whole)
    (hlimit : digitsValue whole < 2 ^ 64) (hr : ∀ c ∈ rest.head?, c.isDigit = false ∧ c ≠ '.') :
    readNumber negative (whole ++ rest) = readExponent negative (digitsValue whole) 0 true rest := by
  unfold readNumber
  rw [spanDigits_append hw.isDigit fun c hc => (hr c hc).1]
  simp only [takeDigits_zero hlimit]
  split
  · exact absurd rfl hw.ne_nil
  · exact absurd (hw.no_zero rfl) (by simp)
  · split
    · exact absurd rfl (hr '.' rfl).2
    · rfl

/-- Whole digits, a point and fraction digits. -/
theorem readNumber_point {negative : Bool} {whole fraction rest : List Char} (hw : Whole whole)
    (hf : ∀ c ∈ fraction, c.isDigit = true) (hne : fraction ≠ []) (hlimit : digitsValue (whole ++ fraction) < 2 ^ 64)
    (hr : ∀ c ∈ rest.head?, c.isDigit = false) :
    readNumber negative (whole ++ '.' :: (fraction ++ rest)) =
      readExponent negative (digitsValue (whole ++ fraction)) (-fraction.length) false rest := by
  obtain ⟨hwhole, hfraction⟩ := takeDigits_append hlimit
  unfold readNumber
  rw [spanDigits_append hw.isDigit (by rintro c ⟨⟩; rfl)]
  simp only [hwhole]
  split
  · exact absurd rfl hw.ne_nil
  · exact absurd (hw.no_zero rfl) (by simp)
  · simp only [spanDigits_append hf hr, hfraction]
    rw [if_neg (by simpa using hne)]
    simp

theorem readExponent_ends {negative isWhole : Bool} {digits : Nat} {exponent : Int} {rest : List Char}
    (hr : EndsNumber rest) : readExponent negative digits exponent isWhole rest =
      some (readExponent.plain negative digits exponent isWhole, rest) := by
  cases rest with
  | nil => rfl
  | cons c rest =>
    obtain ⟨-, -, he, hE⟩ := hr c rfl
    simp [readExponent, he, hE]

theorem readExponent_plus {negative isWhole : Bool} {digits : Nat} {exponent : Int} {rest : List Char} (n : Nat)
    (hr : ∀ c ∈ rest.head?, c.isDigit = false) :
    readExponent negative digits exponent isWhole ('e' :: '+' :: (digitChars n ++ rest)) =
      some (floatNumber negative digits (n + exponent), rest) := by
  have hspan := spanDigits_append (fun _ => isDigit_digitChars (n := n)) hr
  have hne : (digitChars n).isEmpty = false := by simp [digitChars_ne_nil]
  simp [readExponent, hspan, hne, digitsValue_digitChars]

theorem readExponent_minus {negative isWhole : Bool} {digits : Nat} {exponent : Int} {rest : List Char} (n : Nat)
    (hr : ∀ c ∈ rest.head?, c.isDigit = false) :
    readExponent negative digits exponent isWhole ('e' :: '-' :: (digitChars n ++ rest)) =
      some (floatNumber negative digits (-n + exponent), rest) := by
  have hspan := spanDigits_append (fun _ => isDigit_digitChars (n := n)) hr
  have hne : (digitChars n).isEmpty = false := by simp [digitChars_ne_nil]
  simp [readExponent, hspan, hne, digitsValue_digitChars]

theorem readNumber_integer {negative : Bool} {n : Nat} (hn : n < 2 ^ 64) {rest : List Char} (hr : EndsNumber rest) :
    readNumber negative (digitChars n ++ rest) = some (wholeNumber negative n, rest) := by
  rw [readNumber_whole (whole_digitChars n) (by rwa [digitsValue_digitChars]) fun c hc => ⟨(hr c hc).1, (hr c hc).2.1⟩,
    readExponent_ends hr, readExponent.plain, if_pos rfl, digitsValue_digitChars]

/-! ### Decimals -/

/-- A decimal with a point and no exponent. -/
theorem readNumber_fraction (negative : Bool) {whole fraction rest : List Char} (hw : Whole whole)
    (hf : ∀ c ∈ fraction, c.isDigit = true) (hne : fraction ≠ []) (hlimit : digitsValue (whole ++ fraction) < 2 ^ 64)
    (hr : EndsNumber rest) :
    readNumber negative (whole ++ '.' :: fraction ++ rest) =
      some (floatNumber negative (digitsValue (whole ++ fraction)) (-fraction.length), rest) := by
  rw [List.append_assoc, List.cons_append, readNumber_point hw hf hne hlimit hr.not_digit, readExponent_ends hr,
    readExponent.plain, if_neg (by simp)]

theorem isDigit_zeros {k : Nat} {c : Char} (h : c ∈ List.replicate k '0') : c.isDigit = true := by
  rw [List.eq_of_mem_replicate h]
  rfl

theorem digitsValue_zero_append (fraction : List Char) :
    digitsValue (['0'] ++ fraction) = digitsValue fraction := by
  rw [digitsValue_append, show digitsValue ['0'] = 0 from rfl, Nat.zero_mul, Nat.zero_add]

theorem whole_append_zeros {n : Nat} (hn : 0 < n) (k : Nat) : Whole (digitChars n ++ List.replicate k '0') := by
  refine ⟨fun c hc => ?_, by simp [digitChars_ne_nil], fun h => ?_⟩
  · rcases List.mem_append.mp hc with hc | hc
    · exact isDigit_digitChars hc
    · exact isDigit_zeros hc
  · rw [List.head?_append_of_ne_nil _ (digitChars_ne_nil n)] at h
    exact absurd h (head?_digitChars hn)

theorem whole_take {n j : Nat} (hn : 0 < n) (hj : 0 < j) : Whole ((digitChars n).take j) := by
  refine ⟨fun c hc => isDigit_digitChars (List.mem_of_mem_take hc), by simp [hj.ne', digitChars_ne_nil],
    fun h => ?_⟩
  rw [List.head?_take, if_neg hj.ne'] at h
  exact absurd h (head?_digitChars hn)

/-- The digits and the exponent that a reader finds in a decimal: those that were printed, unless a zero behind the
    point ends a whole number. -/
def printedParts (f : Format) (d : Numeral) : Nat × Int :=
  let point : Int := (digitChars d.digits).length + d.exponent
  if 0 ≤ d.exponent ∧ f.low < point ∧ point ≤ f.high then (d.digits * 10 ^ (d.exponent.toNat + 1), -1)
  else (d.digits, d.exponent)

theorem lt_pow_length_digitChars (n : Nat) : n < 10 ^ (digitChars n).length := by
  unfold digitChars
  exact (Nat.length_toDigits_le_iff (by decide) Nat.length_toDigits_pos).1 le_rfl

/-- A positional decimal with digits behind its point is read with the digits that it has. -/
theorem readNumber_positional_fraction {negative : Bool} {n : Nat} (hn : 0 < n) (hlimit : n < 2 ^ 64) {point : Int}
    (hpoint : point < (digitChars n).length) {rest : List Char} (hr : EndsNumber rest) :
    readNumber negative (positional (digitChars n) point ++ rest) =
      some (floatNumber negative n (point - (digitChars n).length), rest) := by
  have hdig : ∀ c ∈ digitChars n, c.isDigit = true := fun _ => isDigit_digitChars
  have hval := digitsValue_digitChars n
  cases point with
  | negSucc j =>
    have hfrac : ∀ c ∈ List.replicate (j + 1) '0' ++ digitChars n, c.isDigit = true := by
      intro c hc
      rcases List.mem_append.mp hc with hc | hc
      · exact isDigit_zeros hc
      · exact hdig c hc
    have hvalue : digitsValue (['0'] ++ (List.replicate (j + 1) '0' ++ digitChars n)) = n := by
      rw [digitsValue_zero_append, digitsValue_append, digitsValue_zeros, hval, Nat.zero_mul, Nat.zero_add]
    have h := readNumber_fraction negative whole_zero hfrac (by simp [digitChars_ne_nil]) (by rwa [hvalue]) hr
    rw [hvalue, List.length_append, List.length_replicate] at h
    refine h.trans ?_
    congr 3
    push_cast
    omega
  | ofNat j =>
    -- The point stands inside the digits, or just before them.
    have hlt : j < (digitChars n).length := by simpa using hpoint
    have hfrac : (digitChars n).drop j ≠ [] := by simpa using hlt
    have hzeros : j - (digitChars n).length = 0 := by omega
    have hlength : (Int.ofNat j - (digitChars n).length : Int) = -((digitChars n).drop j).length := by
      rw [List.length_drop, Int.ofNat_eq_natCast]
      omega
    rw [hlength]
    unfold positional
    simp only [hzeros, List.replicate_zero, List.append_nil, List.isEmpty_iff, hfrac, if_false]
    rcases Nat.eq_zero_or_pos j with rfl | hj
    · have hvalue : digitsValue (['0'] ++ digitChars n) = n := by rw [digitsValue_zero_append, hval]
      rw [List.take_zero, if_pos rfl, List.drop_zero, List.append_assoc ['0'], List.singleton_append (x := '.'),
        readNumber_fraction _ whole_zero hdig (digitChars_ne_nil n) (by rwa [hvalue]) hr, hvalue]
    · have hw := whole_take hn hj
      have hvalue : digitsValue ((digitChars n).take j ++ (digitChars n).drop j) = n := by
        rw [List.take_append_drop, hval]
      rw [if_neg hw.ne_nil, List.append_assoc ((digitChars n).take j), List.singleton_append (x := '.'),
        readNumber_fraction _ hw (fun c hc => hdig c (List.mem_of_mem_drop hc)) hfrac (by rwa [hvalue]) hr, hvalue]

/-- A positional decimal without them is read with the zeros up to its point and the one behind it. -/
theorem readNumber_positional_whole {negative : Bool} {n : Nat} (hn : 0 < n) {zeros : Nat}
    (hlimit : n * 10 ^ (zeros + 1) < 2 ^ 64) {rest : List Char} (hr : EndsNumber rest) :
    readNumber negative (positional (digitChars n) ((digitChars n).length + zeros) ++ rest) =
      some (floatNumber negative (n * 10 ^ (zeros + 1)) (-1), rest) := by
  have hw := whole_append_zeros hn zeros
  have hvalue : digitsValue (digitChars n ++ List.replicate zeros '0' ++ ['0']) = n * 10 ^ (zeros + 1) := by
    rw [digitsValue_append, digitsValue_append, digitsValue_digitChars, digitsValue_zeros, List.length_replicate,
      pow_succ, ← Nat.mul_assoc]
    rfl
  have hpoint : ((digitChars n).length + zeros : Int) = Int.ofNat ((digitChars n).length + zeros) := rfl
  have htake : (digitChars n).take ((digitChars n).length + zeros) = digitChars n :=
    List.take_of_length_le (Nat.le_add_right ..)
  have hdrop : (digitChars n).drop ((digitChars n).length + zeros) = [] := List.drop_of_length_le (Nat.le_add_right ..)
  rw [hpoint]
  unfold positional
  simp only [htake, hdrop, Nat.add_sub_cancel_left, List.isEmpty_iff, hw.ne_nil, if_false, if_true]
  rw [List.append_assoc (digitChars n ++ _), List.singleton_append (x := '.'),
    readNumber_fraction _ hw (by simp) (by simp) (by rwa [hvalue]) hr, hvalue]
  rfl

theorem toList_intText_ofNat (n : Nat) : (intText (.ofNat n)).toList = digitChars n := by
  rw [intText, String.toList_ofList]

theorem toList_intText_negSucc (n : Nat) : (intText (.negSucc n)).toList = '-' :: digitChars (n + 1) := by
  simp [intText]

/-- The exponent of a decimal, whatever digits stand before it. -/
theorem readExponent_intText {negative isWhole : Bool} {digits : Nat} {exponent : Int} {rest : List Char} (e : Int)
    (hr : EndsNumber rest) :
    readExponent negative digits exponent isWhole
        ('e' :: ((if e < 0 then [] else ['+']) ++ ((intText e).toList ++ rest))) =
      some (floatNumber negative digits (e + exponent), rest) := by
  cases e with
  | ofNat j =>
    rw [if_neg (by rw [Int.ofNat_eq_natCast]; omega), toList_intText_ofNat]
    exact readExponent_plus j hr.not_digit
  | negSucc j =>
    rw [if_pos (Int.negSucc_lt_zero j), toList_intText_negSucc]
    exact readExponent_minus (j + 1) hr.not_digit

/-- A decimal with an exponent is read with the value of its digits and the exponent of its first one. -/
theorem readNumber_scientific {negative : Bool} {n : Nat} (hlimit : n < 2 ^ 64) (point : Int) {rest : List Char}
    (hr : EndsNumber rest) :
    readNumber negative (scientific "+" (digitChars n) point ++ rest) =
      some (floatNumber negative n (point - (digitChars n).length), rest) := by
  have hdig : ∀ c ∈ digitChars n, c.isDigit = true := fun _ => isDigit_digitChars
  have hval := digitsValue_digitChars n
  have hw := whole_digitChars n
  have hplus : "+".toList = ['+'] := rfl
  unfold scientific
  simp only [hplus]
  generalize digitChars n = digits at *
  match digits, hw with
  | [], hw => exact absurd rfl hw.ne_nil
  | [d], hw =>
    simp only [List.append_assoc, List.cons_append, List.nil_append]
    rw [← List.singleton_append (x := d),
      readNumber_whole hw (by rwa [hval]) (by rintro c ⟨⟩; exact ⟨rfl, by decide⟩), readExponent_intText _ hr, hval]
    simp
  | d :: d' :: ds, hw =>
    have hone : Whole [d] := by
      refine ⟨by simpa using hdig d (by simp), by simp, fun h => ?_⟩
      exact absurd (hw.no_zero h) (by simp)
    have hvalue : digitsValue ([d] ++ (d' :: ds)) = n := hval
    simp only [List.append_assoc, List.cons_append, List.nil_append]
    rw [← List.singleton_append (x := d), ← List.cons_append (a := d'),
      readNumber_point hone (fun c hc => hdig c (List.mem_cons_of_mem d hc)) (by simp) (by rwa [hvalue])
        (by rintro c ⟨⟩; rfl), readExponent_intText _ hr, hvalue]
    congr 3
    simp
    omega

/-! ### Texts of numbers -/

/-- The text spells a number that is read as `r`: an optional minus, then a digit and whatever follows it. -/
def Spells (text : List Char) (r : Reading) : Prop :=
  ∃ negative body, text = (if negative then '-' :: body else body) ∧ (∃ c cs, body = c :: cs ∧ c.isDigit = true) ∧
    ∀ rest, EndsNumber rest → readNumber negative (body ++ rest) = some (r, rest)

theorem exists_digit_append {a b : List Char} (hne : a ≠ []) (ha : ∀ c ∈ a, c.isDigit = true) :
    ∃ c cs, a ++ b = c :: cs ∧ c.isDigit = true := by
  obtain ⟨c, cs, rfl⟩ := List.exists_cons_of_ne_nil hne
  exact ⟨c, cs ++ b, rfl, ha c (by simp)⟩

theorem exists_digit_positional (n : Nat) (point : Int) :
    ∃ c cs, positional (digitChars n) point = c :: cs ∧ c.isDigit = true := by
  cases point with
  | negSucc j => exact ⟨'0', _, rfl, rfl⟩
  | ofNat j =>
    unfold positional
    simp only [List.append_assoc (if _ then _ else _)]
    split
    · exact ⟨'0', _, rfl, rfl⟩
    · rename_i h
      refine exists_digit_append (by simpa using h) fun c hc => ?_
      rcases List.mem_append.mp hc with hc | hc
      · exact isDigit_digitChars (List.mem_of_mem_take hc)
      · exact isDigit_zeros hc

theorem exists_digit_scientific (n : Nat) (plus : String) (point : Int) :
    ∃ c cs, scientific plus (digitChars n) point = c :: cs ∧ c.isDigit = true := by
  have hdig : ∀ c ∈ digitChars n, c.isDigit = true := fun _ => isDigit_digitChars
  unfold scientific
  simp only [List.append_assoc]
  generalize digitChars n = digits at *
  match digits with
  | [] => exact ⟨'0', _, rfl, rfl⟩
  | [d] => exact ⟨d, _, rfl, hdig d (by simp)⟩
  | d :: d' :: ds => exact ⟨d, _, rfl, hdig d (by simp)⟩

/-- Zero is printed as `0.0`. -/
theorem spells_zero {f : Format} (hlow : f.low < 1) (hhigh : 1 ≤ f.high) (negative : Bool) (q : Int) :
    printedParts f (shortest f.tie 0 q) = (0, -1) ∧
      Spells (f.finite negative 0 q).toList (floatNumber negative 0 (-1)) := by
  have hzero : shortest f.tie 0 q = ⟨0, 0⟩ := rfl
  have hlength : (digitChars 0).length = 1 := rfl
  rw [hzero]
  refine ⟨?_, negative, ['0', '.', '0'], ?_, ⟨'0', _, rfl, rfl⟩, fun rest hr => ?_⟩
  · simp only [printedParts, hlength]
    rw [if_pos ⟨le_rfl, by push_cast; omega, by push_cast; omega⟩]
    rfl
  · simp only [Format.finite, hzero, if_true, String.toList_ofList]
  · exact readNumber_fraction negative whole_zero (by simp) (by simp) (by decide) hr

/-- Sixteen digits and a last zero fit into 64 bits. -/
theorem mul_ten_pow_lt {n zeros : Nat} (h : (digitChars n).length + zeros ≤ 16) : n * 10 ^ (zeros + 1) < 2 ^ 64 :=
  calc n * 10 ^ (zeros + 1) ≤ 10 ^ (digitChars n).length * 10 ^ (zeros + 1) :=
        Nat.mul_le_mul_right _ (lt_pow_length_digitChars n).le
    _ = 10 ^ ((digitChars n).length + zeros + 1) := by rw [← pow_add, Nat.add_assoc]
    _ ≤ 10 ^ 17 := Nat.pow_le_pow_right (by norm_num) (Nat.succ_le_succ h)
    _ < 2 ^ 64 := by norm_num

/-- The text of a finite double in a format whose positive exponents have a sign, and whose whole numbers have at most
    sixteen digits. -/
theorem spells_finite {f : Format} (hplus : f.plus = "+") (hlow : f.low < 1) (hhigh : 1 ≤ f.high ∧ f.high ≤ 16)
    (negative : Bool) {m : Nat} {q : Int} (hrep : Representable m q) :
    (printedParts f (shortest f.tie m q)).1 < 2 ^ 64 ∧
      Spells (f.finite negative m q).toList (floatNumber negative (printedParts f (shortest f.tie m q)).1
        (printedParts f (shortest f.tie m q)).2) := by
  rcases Nat.eq_zero_or_pos m with rfl | hm
  · obtain ⟨hparts, hspells⟩ := spells_zero hlow hhigh.1 negative q
    rw [hparts]
    exact ⟨by norm_num, hspells⟩
  · have hdig := (rounds_shortest f.tie hm hrep).digits_pos hm
    have hmost := digits_shortest_le f.tie hm hrep
    have hlimit : (shortest f.tie m q).digits < 2 ^ 64 := hmost.trans_lt (by norm_num)
    simp only [Format.finite, String.toList_ofList, hplus]
    generalize shortest f.tie m q = d at *
    obtain ⟨n, x⟩ := d
    simp only [printedParts] at *
    rw [if_neg hdig.ne']
    by_cases hpositional : f.low < ((digitChars n).length + x : Int) ∧ ((digitChars n).length + x : Int) ≤ f.high
    · rw [if_pos hpositional]
      by_cases hx : 0 ≤ x
      · obtain ⟨zeros, rfl⟩ := Int.eq_ofNat_of_zero_le hx
        have hfits : n * 10 ^ (zeros + 1) < 2 ^ 64 := mul_ten_pow_lt (by omega)
        rw [if_pos ⟨hx, hpositional⟩, Int.toNat_natCast]
        exact ⟨hfits, negative, _, rfl, exists_digit_positional _ _, fun rest hr =>
          readNumber_positional_whole hdig hfits hr⟩
      · rw [if_neg fun h => hx h.1]
        refine ⟨hlimit, negative, _, rfl, exists_digit_positional _ _, fun rest hr => ?_⟩
        rw [readNumber_positional_fraction hdig hlimit (by omega) hr, add_sub_cancel_left]
    · rw [if_neg hpositional, if_neg fun h => hpositional h.2]
      refine ⟨hlimit, negative, _, rfl, exists_digit_scientific _ _ _, fun rest hr => ?_⟩
      rw [readNumber_scientific hlimit _ hr, add_sub_cancel_left]

/-- What is read of the printed decimal of a double. -/
def rescaled (negative : Bool) (m : Nat) (q : Int) : Double :=
  let parts := printedParts Json.floatFormat (shortest Json.floatFormat.tie m q)
  scaleDecimal negative parts.1 parts.2

theorem floatNumber_of_isFinite {negative : Bool} {digits : Nat} {exponent : Int}
    (h : (scaleDecimal negative digits exponent).isFinite = true) :
    floatNumber negative digits exponent = .float (scaleDecimal negative digits exponent) := if_pos h

theorem isFinite_rescaled (negative : Bool) {m : Nat} {q : Int} (hrep : Representable m q) :
    (rescaled negative m q).isFinite = true := by
  obtain ⟨hlimit, -⟩ := spells_finite (f := Json.floatFormat) rfl (by decide) (by decide) negative hrep
  refine isFinite_scaleDecimal negative hlimit fun zeros hzeros => ?_
  rcases Nat.eq_zero_or_pos m with rfl | hm
  · have hzero : shortest Json.floatFormat.tie 0 q = ⟨0, 0⟩ := rfl
    have hparts : printedParts Json.floatFormat ⟨0, 0⟩ = (0, -1) := by decide
    rw [hzero, hparts] at hzeros
    exact absurd hzeros (by simp only; omega)
  · unfold printedParts at hzeros ⊢
    simp only at hzeros ⊢
    split
    · rename_i hwhole
      rw [if_pos hwhole] at hzeros
      exact absurd hzeros (by simp only; omega)
    · rename_i hwhole
      rw [if_neg hwhole] at hzeros
      exact digits_le_largestDigits _ hm hrep hzeros

/-- The text of a finite double is read as a finite double. -/
theorem spells_floatText {d : Double} {negative : Bool} {m : Nat} {q : Int} (hview : d.view = .finite negative m q) :
    (rescaled negative m q).isFinite = true ∧ Spells (Json.floatText d).toList (.float (rescaled negative m q)) := by
  obtain ⟨hrep, -⟩ := view_eq_finite hview
  have hfinite := isFinite_rescaled negative hrep
  obtain ⟨-, hspells⟩ := spells_finite (f := Json.floatFormat) rfl (by decide) (by decide) negative hrep
  refine ⟨hfinite, ?_⟩
  rw [Json.floatText, hview]
  rwa [floatNumber_of_isFinite hfinite] at hspells

/-- A double is read as it was if its digits, with the zeros that are printed behind them, fit into 53 bits and its
    exponent is small on both sides. -/
theorem rescaled_eq_self {d : Double} {negative : Bool} {m : Nat} {q : Int} (hview : d.view = .finite negative m q)
    (hdigits : (printedParts Json.floatFormat (shortest Json.floatFormat.tie m q)).1 < 2 ^ 53)
    (hlow : -22 ≤ (printedParts Json.floatFormat (shortest Json.floatFormat.tie m q)).2)
    (hhigh : (printedParts Json.floatFormat (shortest Json.floatFormat.tie m q)).2 ≤ 22) :
    rescaled negative m q = d := by
  obtain ⟨hrep, hself⟩ := view_eq_finite hview
  rcases Nat.eq_zero_or_pos m with rfl | hm
  · rcases hrep.full with rfl | hfull
    · subst hself
      cases negative <;> decide
    · exact absurd hfull (by norm_num)
  · have hrounds := rounds_shortest Json.floatFormat.tie hm hrep
    rw [hself, rescaled]
    refine scaleDecimal_eq hrep hm hdigits hlow hhigh ?_
    convert hrounds using 1
    unfold printedParts
    generalize shortest Json.floatFormat.tie m q = s at *
    simp only
    split
    · rename_i hwhole
      obtain ⟨zeros, hzeros⟩ := Int.eq_ofNat_of_zero_le hwhole.1
      rw [hzeros, Int.toNat_natCast, zpow_natCast, zpow_neg_one, pow_succ]
      push_cast
      field_simp
    · rfl

theorem spells_intText {value : Int} (hlow : -(2 ^ 63) ≤ value) (hhigh : value < 2 ^ 64) :
    Spells (intText value).toList (.integer value) := by
  have hdigit : ∀ n, ∃ c cs, digitChars n = c :: cs ∧ c.isDigit = true := fun n => by
    have := exists_digit_append (b := []) (digitChars_ne_nil n) fun _ => isDigit_digitChars
    rwa [List.append_nil] at this
  cases value with
  | ofNat n =>
    refine ⟨false, digitChars n, toList_intText_ofNat n, hdigit n, fun rest hr => ?_⟩
    have hlimit : n < 2 ^ 64 := by
      rw [Int.ofNat_eq_natCast] at hhigh
      omega
    rw [readNumber_integer hlimit hr, wholeNumber, if_neg (by simp)]
    rfl
  | negSucc n =>
    refine ⟨true, digitChars (n + 1), toList_intText_negSucc n, hdigit (n + 1), fun rest hr => ?_⟩
    have hlimit : n + 1 ≤ 2 ^ 63 := by omega
    rw [readNumber_integer (by omega) hr, wholeNumber, if_pos rfl, if_pos ⟨Nat.succ_pos n, hlimit⟩]
    rfl

end SwiftForge.Reading
