import Mathlib.Algebra.Order.Field.Power
import Mathlib.Tactic
import SwiftForge.Decimal.Double

/-! Rounding to the nearest double. A finite double is a significand times a power of two, and the bits below
    its sign count the doubles from zero on. The rationals that round to it form an interval, and a quotient in
    that interval is rounded to that double. -/

namespace SwiftForge.Double

/-- The significands and exponents of finite doubles: the exponent is in range, and the significand has all its
    bits unless the exponent is the smallest. -/
structure Representable (significand : Nat) (exponent : Int) : Prop where
  low : -1074 ≤ exponent
  high : exponent ≤ 971
  bound : significand < 2 ^ 53
  full : exponent = -1074 ∨ 2 ^ 52 ≤ significand

/-- The bits below the sign count the doubles from zero on. -/
def magnitude (significand : Nat) (exponent : Int) : Nat := significand + (exponent + 1074).toNat * 2 ^ 52

theorem magnitude_lt {m : Nat} {q : Int} (h : Representable m q) : magnitude m q < infiniteMagnitude := by
  have hb := h.bound
  have hq := h.high
  have hp : Nat.pow 2 52 = 4503599627370496 := rfl
  simp only [magnitude, infiniteMagnitude, hp]
  rcases h.full with rfl | hf
  · simp
    omega
  · have : (q + 1074).toNat ≤ 2045 := by omega
    omega

theorem view_eq_finite {d : Double} {negative : Bool} {m : Nat} {q : Int} (h : d.view = .finite negative m q) :
    Representable m q ∧ d = ofMagnitude negative (magnitude m q) := by
  obtain ⟨bits⟩ := d
  have hbits := bits.toNat_lt
  -- The fields are remainders and quotients of the bits, so `omega` wants the powers as numbers.
  have hp : Nat.pow 2 52 = 4503599627370496 := rfl
  have hp' : Nat.pow 2 63 = 9223372036854775808 := rfl
  have hp'' : Nat.pow 2 11 = 2048 := rfl
  have key : Representable m q ∧ magnitude m q + (if negative then Nat.pow 2 63 else 0) = bits.toNat := by
    simp only [view, exponentField, fractionField, isNegative, hp, hp', hp''] at h
    split at h
    · split at h <;> simp at h
    · rename_i hinf
      have hneg : ∀ b : Bool, (bits.toNat / 9223372036854775808 == 1) = b →
          bits.toNat / 9223372036854775808 = if b then 1 else 0 := by
        rintro b rfl
        by_cases hs : bits.toNat / 9223372036854775808 = 1
        · simp [hs]
        · have : bits.toNat / 9223372036854775808 = 0 := by omega
          simp [this]
      split at h
      · rename_i hsub
        obtain ⟨hn, rfl, rfl⟩ : _ ∧ _ ∧ _ := by simpa using h
        have hn := hneg negative (by simpa using hn)
        refine ⟨⟨by omega, by omega, by omega, Or.inl rfl⟩, ?_⟩
        simp only [magnitude, hp']
        cases negative <;> simp at hn ⊢ <;> omega
      · rename_i hsub
        obtain ⟨hn, rfl, rfl⟩ : _ ∧ _ ∧ _ := by simpa using h
        have hn := hneg negative (by simpa using hn)
        refine ⟨⟨by omega, by omega, by omega, Or.inr (by omega)⟩, ?_⟩
        simp only [magnitude, hp']
        cases negative <;> simp at hn ⊢ <;> omega
  refine ⟨key.1, ?_⟩
  rw [ofMagnitude, key.2, UInt64.ofNat_toNat]

theorem two_zpow_pos (q : Int) : (0 : ℚ) < 2 ^ q := zpow_pos (by norm_num) q

theorem scaleBinary_eq (num : Nat) {den : Nat} (hden : 0 < den) (e : Int) :
    0 < (scaleBinary num den e).2 ∧
      ((scaleBinary num den e).1 : ℚ) / (scaleBinary num den e).2 = num / den * 2 ^ e := by
  have hd : (den : ℚ) ≠ 0 := by positivity
  cases e with
  | ofNat n =>
    refine ⟨hden, ?_⟩
    simp only [scaleBinary, Nat.pow_eq, Int.ofNat_eq_natCast, zpow_natCast]
    push_cast
    field_simp
  | negSucc n =>
    refine ⟨Nat.mul_pos hden (Nat.pow_pos (by omega)), ?_⟩
    simp only [scaleBinary, Nat.pow_eq, zpow_negSucc]
    push_cast
    field_simp

/-- A positive natural number lies between two powers of two. -/
theorem log2_bounds {n : Nat} (hn : 0 < n) : (2 : ℚ) ^ (n.log2 : Int) ≤ n ∧ (n : ℚ) < 2 ^ ((n.log2 : Int) + 1) := by
  constructor
  · rw [zpow_natCast]
    exact_mod_cast Nat.log2_self_le (by omega)
  · have := @Nat.lt_log2_self n
    rw [← Nat.cast_succ, zpow_natCast]
    exact_mod_cast this

theorem quotient_bounds {num den : Nat} (hnum : 0 < num) (hden : 0 < den) :
    (2 : ℚ) ^ ((num.log2 : Int) - den.log2 - 1) < num / den ∧
      (num : ℚ) / den < 2 ^ ((num.log2 : Int) - den.log2 + 1) := by
  obtain ⟨hn1, hn2⟩ := log2_bounds hnum
  obtain ⟨hd1, hd2⟩ := log2_bounds hden
  have hd : (0 : ℚ) < den := by positivity
  constructor
  · rw [lt_div_iff₀ hd]
    calc (2 : ℚ) ^ ((num.log2 : Int) - den.log2 - 1) * den
        < 2 ^ ((num.log2 : Int) - den.log2 - 1) * 2 ^ ((den.log2 : Int) + 1) :=
          mul_lt_mul_of_pos_left hd2 (two_zpow_pos _)
      _ = 2 ^ (num.log2 : Int) := by rw [← zpow_add₀ (by norm_num)]; congr 1; ring
      _ ≤ num := hn1
  · rw [div_lt_iff₀ hd]
    calc (num : ℚ) < 2 ^ ((num.log2 : Int) + 1) := hn2
      _ = 2 ^ ((num.log2 : Int) - den.log2 + 1) * 2 ^ (den.log2 : Int) := by
          rw [← zpow_add₀ (by norm_num)]; congr 1; ring
      _ ≤ 2 ^ ((num.log2 : Int) - den.log2 + 1) * den := mul_le_mul_of_nonneg_left hd1 (two_zpow_pos _).le

theorem leadingBit_bounds {num den : Nat} (hnum : 0 < num) (hden : 0 < den) :
    (2 : ℚ) ^ leadingBit num den ≤ num / den ∧ (num : ℚ) / den < 2 ^ (leadingBit num den + 1) := by
  obtain ⟨hlo, hhi⟩ := quotient_bounds hnum hden
  obtain ⟨hd, heq⟩ := scaleBinary_eq num hden (-((num.log2 : Int) - den.log2))
  simp only [leadingBit]
  generalize (num.log2 : Int) - den.log2 = g at *
  generalize scaleBinary num den (-g) = s at *
  obtain ⟨n, d⟩ := s
  simp only at hd heq ⊢
  have hd' : (0 : ℚ) < d := by positivity
  have hg := two_zpow_pos g
  -- Comparing the scaled quotient with one compares the quotient with the power.
  have hx : (num : ℚ) / den = n / d * 2 ^ g := by
    rw [heq, mul_assoc, ← zpow_add₀ (by norm_num)]
    simp
  by_cases h : n < d
  · rw [if_pos h]
    refine ⟨hlo.le, ?_⟩
    have : (n : ℚ) / d < 1 := by rw [div_lt_one hd']; exact_mod_cast h
    rw [hx, sub_add_cancel]
    nlinarith
  · rw [if_neg h]
    refine ⟨?_, hhi⟩
    have : 1 ≤ (n : ℚ) / d := by rw [one_le_div hd']; exact_mod_cast not_lt.mp h
    rw [hx]
    nlinarith

/-- The exponent of the leading bit is the only one whose powers enclose the quotient. -/
theorem leadingBit_eq {num den : Nat} (hnum : 0 < num) (hden : 0 < den) {e : Int}
    (hlo : (2 : ℚ) ^ e ≤ num / den) (hhi : (num : ℚ) / den < 2 ^ (e + 1)) : leadingBit num den = e := by
  obtain ⟨hlo', hhi'⟩ := leadingBit_bounds hnum hden
  have h1 := (zpow_lt_zpow_iff_right₀ (by norm_num : (1 : ℚ) < 2)).mp (hlo.trans_lt hhi')
  have h2 := (zpow_lt_zpow_iff_right₀ (by norm_num : (1 : ℚ) < 2)).mp (hlo'.trans_lt hhi)
  omega

/-- The natural number is within a half of the rational, an odd one strictly so: what rounding gives, with a half away
    going to the even one. -/
structure Nearest (k : Nat) (x : ℚ) : Prop where
  low : (k : ℚ) - 1 / 2 ≤ x
  high : x ≤ k + 1 / 2
  odd : k % 2 = 1 → (k : ℚ) - 1 / 2 < x ∧ x < k + 1 / 2

theorem roundDiv_nearest (n : Nat) {d : Nat} (hd : 0 < d) : Nearest (roundDiv n d) (n / d) := by
  have hd' : (0 : ℚ) < d := by positivity
  have hr : n % d < d := Nat.mod_lt n hd
  have hn : (n : ℚ) / d = (n / d : Nat) + (n % d : Nat) / d := by
    have h : (d * (n / d : Nat) + (n % d : Nat) : ℚ) = n := by exact_mod_cast Nat.div_add_mod n d
    rw [div_eq_iff hd'.ne', add_mul, div_mul_cancel₀ _ hd'.ne', mul_comm _ (d : ℚ), h]
  have hpos : (0 : ℚ) ≤ (n % d : Nat) / d := by positivity
  have hone : ((n % d : Nat) : ℚ) / d < 1 := by rw [div_lt_one hd']; exact_mod_cast hr
  rw [hn, roundDiv]
  generalize n / d = q at *
  generalize n % d = r at *
  have hless : 2 * r < d ↔ (r : ℚ) / d < 1 / 2 := by
    rw [div_lt_iff₀ hd', ← Nat.cast_lt (α := ℚ)]
    push_cast
    constructor <;> intro h <;> linarith
  have hmore : 2 * r > d ↔ 1 / 2 < (r : ℚ) / d := by
    rw [lt_div_iff₀ hd', gt_iff_lt, ← Nat.cast_lt (α := ℚ)]
    push_cast
    constructor <;> intro h <;> linarith
  simp only [hless, hmore]
  generalize (r : ℚ) / d = x at *
  have hsucc : ((q + 1 : Nat) : ℚ) = q + 1 := Nat.cast_succ q
  by_cases h1 : x < 1 / 2
  · rw [if_pos h1]
    exact ⟨by linarith, by linarith, fun _ => ⟨by linarith, by linarith⟩⟩
  · rw [if_neg h1]
    by_cases h2 : 1 / 2 < x
    · rw [if_pos h2]
      exact ⟨by linarith, by linarith, fun _ => ⟨by linarith, by linarith⟩⟩
    · -- just in the middle, where the even one is taken
      have hx : x = 1 / 2 := le_antisymm (not_lt.1 h2) (not_lt.1 h1)
      rw [if_neg h2]
      by_cases heven : q % 2 = 0
      · rw [if_pos heven]
        exact ⟨by linarith, by linarith, fun hodd => by omega⟩
      · rw [if_neg heven]
        exact ⟨by linarith, by linarith, fun hodd => by omega⟩

theorem Nearest.mono {k l : Nat} {x y : ℚ} (hk : Nearest k x) (hl : Nearest l y) (h : x ≤ y) : k ≤ l := by
  by_contra hlt
  have hcast : (l : ℚ) + 1 ≤ k := by exact_mod_cast not_le.1 hlt
  have hlow := hk.low
  have hhigh := hl.high
  -- Both lie in the middle between two neighbours, and one of these is odd.
  have hkl : (k : ℚ) = l + 1 := by linarith
  have hsucc : k = l + 1 := by exact_mod_cast hkl
  rcases Nat.mod_two_eq_zero_or_one l with hl0 | hl1
  · have := (hk.odd (by omega)).1
    linarith
  · have := (hl.odd hl1).2
    linarith

theorem roundDiv_eq {n d k : Nat} (hd : 0 < d) (h : Nearest k (n / d)) : roundDiv n d = k :=
  le_antisymm ((roundDiv_nearest n hd).mono h le_rfl) (h.mono (roundDiv_nearest n hd) le_rfl)

/-- How far below a value the next boundary is, in units of its last bit: just above a power of two the
    neighbour is half as far. -/
def gapBelow (m : Nat) (q : Int) : ℚ := if m = 2 ^ 52 ∧ q ≠ -1074 then 1 / 4 else 1 / 2

/-- The rationals that round to `m · 2 ^ q`; the ends count when `m` is even. -/
structure Rounds (m : Nat) (q : Int) (x : ℚ) : Prop where
  low : (m - gapBelow m q) * 2 ^ q ≤ x
  high : x ≤ (m + 1 / 2) * 2 ^ q
  odd : m % 2 = 1 → (m - 1 / 2) * 2 ^ q < x ∧ x < (m + 1 / 2) * 2 ^ q

theorem gapBelow_le (m : Nat) (q : Int) : 1 / 4 ≤ gapBelow m q ∧ gapBelow m q ≤ 1 / 2 := by
  unfold gapBelow
  split <;> norm_num

theorem two_zpow_add (q : Int) (n : Nat) : (2 : ℚ) ^ (q + n) = 2 ^ n * 2 ^ q := by
  rw [zpow_add₀ (by norm_num), zpow_natCast, mul_comm]

/-- The exponent that `ofQuotient` works with, and the rounded quotient at that exponent. -/
theorem ofQuotient_eq_of_exponent {negative : Bool} {num den : Nat} {e : Int} {k : Nat} (hnum : 0 < num)
    (hden : 0 < den) (he : max (leadingBit num den - 52) (-1074) = e)
    (hlo : ((k : ℚ) - 1 / 2) * 2 ^ e ≤ num / den) (hhi : (num : ℚ) / den ≤ (k + 1 / 2) * 2 ^ e)
    (hodd : k % 2 = 1 → ((k : ℚ) - 1 / 2) * 2 ^ e < num / den ∧ (num : ℚ) / den < (k + 1 / 2) * 2 ^ e)
    (hinf : magnitude k e ≤ infiniteMagnitude) :
    ofQuotient negative num den = ofMagnitude negative (magnitude k e) := by
  obtain ⟨hd, heq⟩ := scaleBinary_eq num hden (-e)
  have hp := two_zpow_pos e
  rw [zpow_neg, ← div_eq_mul_inv] at heq
  have hround : roundDiv (scaleBinary num den (-e)).1 (scaleBinary num den (-e)).2 = k := by
    refine roundDiv_eq hd ⟨?_, ?_, ?_⟩
    · rwa [heq, le_div_iff₀ hp]
    · rwa [heq, div_le_iff₀ hp]
    · rwa [heq, lt_div_iff₀ hp, div_lt_iff₀ hp]
  unfold ofQuotient
  rw [if_neg (by omega)]
  simp only [he, hround]
  rw [min_eq_left (by simpa [magnitude] using hinf)]
  rfl

/-- A quotient that rounds to a finite double is read as that double. -/
theorem ofQuotient_eq {negative : Bool} {num den m : Nat} {q : Int} (hrep : Representable m q) (hnum : 0 < num)
    (hden : 0 < den) (h : Rounds m q (num / den)) :
    ofQuotient negative num den = ofMagnitude negative (magnitude m q) := by
  have hp := two_zpow_pos q
  have hm : (m : ℚ) + 1 ≤ 2 ^ 53 := by exact_mod_cast hrep.bound
  have hinf := (magnitude_lt hrep).le
  have hhigh : (num : ℚ) / den < 2 ^ (q + 52 + 1) := by
    refine h.high.trans_lt ?_
    rw [add_assoc, show (52 : Int) + 1 = ((53 : Nat) : Int) by rfl, two_zpow_add]
    nlinarith
  by_cases hcarry : (m = 2 ^ 52 ∧ q ≠ -1074) ∧ (num : ℚ) / den < 2 ^ (q + 52)
  · -- The quotient lies below the power of two that it rounds to.
    obtain ⟨⟨rfl, hq⟩, hx⟩ := hcarry
    have hlow := h.low
    rw [gapBelow, if_pos ⟨rfl, hq⟩] at hlow
    have hp' : (2 : ℚ) ^ q = 2 ^ (q - 1) * 2 := by rw [← zpow_add_one₀ (by norm_num), sub_add_cancel]
    have hp1 := two_zpow_pos (q - 1)
    have hlead : leadingBit num den = q + 51 := by
      refine leadingBit_eq hnum hden (le_trans ?_ hlow) (by rwa [add_assoc])
      rw [show (51 : Int) = ((51 : Nat) : Int) by rfl, two_zpow_add]
      push_cast
      nlinarith
    have hmag : magnitude (2 ^ 53) (q - 1) = magnitude (2 ^ 52) q := by
      have := hrep.low
      simp only [magnitude]
      omega
    rw [← hmag] at hinf ⊢
    rw [show (52 : Int) = ((52 : Nat) : Int) by rfl, two_zpow_add, hp'] at hx
    rw [hp'] at hlow
    apply ofQuotient_eq_of_exponent hnum hden _ _ _ (fun hodd => absurd hodd (by norm_num)) hinf
    · rw [hlead, max_eq_left] <;> have := hrep.low <;> omega
    · push_cast at hlow ⊢
      linarith
    · push_cast
      linarith
  · -- Otherwise its leading bit stands where that of the significand does.
    have hexp : max (leadingBit num den - 52) (-1074) = q := by
      obtain ⟨hb1, hb2⟩ := leadingBit_bounds hnum hden
      have hle := (zpow_lt_zpow_iff_right₀ (by norm_num : (1 : ℚ) < 2)).mp (hb1.trans_lt hhigh)
      rcases hrep.full with rfl | hfull
      · rw [max_eq_right]
        omega
      · by_cases hq : q = -1074
        · rw [max_eq_right] <;> omega
        · have hge : (2 : ℚ) ^ (q + 52) ≤ num / den := by
            by_cases h52 : m = 2 ^ 52
            · exact not_lt.mp fun hlt => hcarry ⟨⟨h52, hq⟩, hlt⟩
            · refine le_trans ?_ h.low
              have h1 : (2 : ℚ) ^ 52 + 1 ≤ m := by
                have : 2 ^ 52 + 1 ≤ m := by omega
                exact_mod_cast this
              have h2 := (gapBelow_le m q).2
              rw [show (52 : Int) = ((52 : Nat) : Int) by rfl, two_zpow_add]
              exact mul_le_mul_of_nonneg_right (by linarith) hp.le
          have := leadingBit_eq hnum hden hge hhigh
          rw [this, max_eq_left] <;> have := hrep.low <;> omega
    refine ofQuotient_eq_of_exponent hnum hden hexp (le_trans ?_ h.low) h.high h.odd hinf
    have h2 := (gapBelow_le m q).2
    exact mul_le_mul_of_nonneg_right (by linarith) hp.le

/-! ### Decimals -/

theorem ten_zpow_pos (e : Int) : (0 : ℚ) < 10 ^ e := zpow_pos (by norm_num) e

theorem ten_zpow_lt_two_zpow : (10 : ℚ) ^ (-324 : Int) < 2 ^ (-1075 : Int) := by
  have h : 2 ^ 1075 < 10 ^ 324 := by decide +kernel
  rw [zpow_neg, zpow_neg, show (1075 : Int) = ((1075 : Nat) : Int) by rfl,
    show (324 : Int) = ((324 : Nat) : Int) by rfl, zpow_natCast, zpow_natCast]
  exact inv_strictAnti₀ (by positivity) (by exact_mod_cast h)

/-- What rounds to a finite double other than zero is positive. -/
theorem Rounds.pos {m : Nat} {q : Int} {x : ℚ} (h : Rounds m q x) (hm : 0 < m) : 0 < x := by
  have hm1 : (1 : ℚ) ≤ m := by exact_mod_cast hm
  have hgap := (gapBelow_le m q).2
  calc (0 : ℚ) < (m - gapBelow m q) * 2 ^ q := mul_pos (by linarith) (two_zpow_pos q)
    _ ≤ x := h.low

theorem Rounds.digits_pos {m digits : Nat} {q e : Int} (h : Rounds m q (digits * 10 ^ e)) (hm : 0 < m) :
    0 < digits := by
  rcases Nat.eq_zero_or_pos digits with rfl | hpos
  · have hzero := h.pos hm
    rw [Nat.cast_zero, zero_mul] at hzero
    exact absurd hzero (lt_irrefl 0)
  · exact hpos

end SwiftForge.Double
