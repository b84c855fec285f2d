import SwiftForge.Decimal.Scaling
import SwiftForge.Proofs.Decimal.Order
import SwiftForge.Proofs.Decimal.Shortest

/-! Decimals that are put together by products and quotients of doubles. The shortest decimal of a double never leads
    beyond the doubles this way, though it can miss the double itself; with few digits and a small power of ten there is
    a single rounding, and then it does not. -/

namespace SwiftForge.Double
open Decimal

variable {num den m n : Nat} {q e f : Int} {s t : Bool}

/-! ### Single steps -/

theorem exists_ofScaled (s : Bool) (num : Nat) (hden : 0 < den) (e : Int) :
    ∃ num' den' : Nat, 0 < den' ∧ (num' : ℚ) / den' = num / den * 2 ^ e ∧
      ofScaled s num den e = ofQuotient s num' den' := by
  obtain ⟨hpos, heq⟩ := scaleBinary_eq num hden e
  exact ⟨_, _, hpos, heq, rfl⟩

/-- The product of finite doubles is the exact product, rounded. -/
theorem exists_product {a b : Double} (ha : a.view = .finite s m e) (hb : b.view = .finite t n f) :
    ∃ num den : Nat, 0 < den ∧ (num : ℚ) / den = m * 2 ^ e * (n * 2 ^ f) ∧
      a.product b = ofQuotient (s != t) num den := by
  obtain ⟨num, den, hden, hvalue, heq⟩ := exists_ofScaled (s != t) (m * n) Nat.one_pos (e + f)
  refine ⟨num, den, hden, ?_, by rw [product, ha, hb]; exact heq⟩
  rw [hvalue, zpow_add₀ (by norm_num)]
  push_cast
  ring

/-- The quotient of finite doubles is the exact quotient, rounded. -/
theorem exists_quotient {a b : Double} (ha : a.view = .finite s m e) (hb : b.view = .finite t n f) (hn : 0 < n) :
    ∃ num den : Nat, 0 < den ∧ (num : ℚ) / den = m * 2 ^ e / (n * 2 ^ f) ∧
      a.quotient b = ofQuotient (s != t) num den := by
  obtain ⟨num, den, hden, hvalue, heq⟩ := exists_ofScaled (s != t) m hn (e - f)
  refine ⟨num, den, hden, ?_, by rw [quotient, ha, hb]; simp only [if_neg hn.ne']; exact heq⟩
  have hp := (two_zpow_pos f).ne'
  have hn' : (n : ℚ) ≠ 0 := by positivity
  rw [hvalue, zpow_sub₀ (by norm_num)]
  field_simp

theorem size_eq {d : Double} (h : d.view = .finite s m q) : d.size = m * 2 ^ q := by rw [size, h]

/-- The value of a finite double rounds to it. -/
theorem Rounds.self (m : Nat) (q : Int) : Rounds m q (m * 2 ^ q) := by
  have hp := two_zpow_pos q
  have hg := gapBelow_le m q
  exact ⟨by nlinarith, by nlinarith, fun _ => ⟨by nlinarith, by nlinarith⟩⟩

theorem ofQuotient_eq_self (hrep : Representable m q) (hm : 0 < m) (hden : 0 < den) (h : (num : ℚ) / den = m * 2 ^ q) :
    ofQuotient s num den = ofMagnitude s (magnitude m q) := by
  have hp := two_zpow_pos q
  have hnum : 0 < num := by
    rcases Nat.eq_zero_or_pos num with rfl | hpos
    · rw [Nat.cast_zero, zero_div] at h
      have : (0 : ℚ) < m * 2 ^ q := by positivity
      exact absurd h this.ne
    · exact hpos
  exact ofQuotient_eq hrep hnum hden (h ▸ Rounds.self m q)

/-! ### Staying finite -/

/-- The product of doubles that are not larger stays finite. -/
theorem isFinite_product_of_le {a b c d : Double} (ha : a.isFinite = true) (hb : b.isFinite = true)
    (hc : c.isFinite = true) (hd : d.isFinite = true) (hac : a.size ≤ c.size) (hbd : b.size ≤ d.size)
    (h : (c.product d).isFinite = true) : (a.product b).isFinite = true := by
  obtain ⟨s, m, e, hviewa⟩ := exists_view ha
  obtain ⟨t, n, f, hviewb⟩ := exists_view hb
  obtain ⟨s', m', e', hviewc⟩ := exists_view hc
  obtain ⟨t', n', f', hviewd⟩ := exists_view hd
  obtain ⟨num, den, hden, hvalue, heq⟩ := exists_product hviewa hviewb
  obtain ⟨num', den', hden', hvalue', heq'⟩ := exists_product hviewc hviewd
  rw [heq'] at h
  rw [heq]
  refine isFinite_ofQuotient_of_le hden hden' ?_ h
  rw [size_eq hviewa, size_eq hviewc] at hac
  rw [size_eq hviewb, size_eq hviewd] at hbd
  rw [hvalue, hvalue']
  exact mul_le_mul hac hbd (mul_nonneg (Nat.cast_nonneg n) (two_zpow_pos f).le)
    (mul_nonneg (Nat.cast_nonneg m') (two_zpow_pos e').le)

/-- A quotient by one or more is not beyond what is divided. -/
theorem isFinite_quotient {a b : Double} (ha : a.isFinite = true) (hb : b.isFinite = true) (hone : 1 ≤ b.size) :
    (a.quotient b).isFinite = true := by
  obtain ⟨s, m, e, hview⟩ := exists_view ha
  obtain ⟨t, n, f, hpower⟩ := exists_view hb
  rw [size_eq hpower] at hone
  have hn : 0 < n := by
    rcases Nat.eq_zero_or_pos n with rfl | hn
    · rw [Nat.cast_zero, zero_mul] at hone
      exact absurd hone (by norm_num)
    · exact hn
  obtain ⟨num, den, hden, hvalue, heq⟩ := exists_quotient hview hpower hn
  obtain ⟨hrep, hself⟩ := view_eq_finite hview
  rw [heq]
  rcases Nat.eq_zero_or_pos m with rfl | hm
  · rw [Nat.cast_zero, zero_mul, zero_div, div_eq_zero_iff, or_iff_left (Nat.cast_ne_zero.2 hden.ne')] at hvalue
    rw [Nat.cast_eq_zero.1 hvalue]
    exact isFinite_ofQuotient_zero den
  · obtain ⟨num', den', hden', hvalue', -⟩ := exists_ofScaled s m Nat.one_pos e
    rw [Nat.cast_one, div_one] at hvalue'
    have hle : (num : ℚ) / den ≤ num' / den' := by
      rw [hvalue, hvalue']
      exact div_le_self (mul_nonneg (Nat.cast_nonneg m) (two_zpow_pos e).le) hone
    have hfinite : (ofQuotient s num' den').isFinite = true := by
      rwa [ofQuotient_eq_self hrep hm hden' hvalue', ← hself]
    exact isFinite_ofQuotient_of_le hden hden' hle hfinite

/-- A smaller natural number stays finite if a larger one does. -/
theorem isFinite_ofNat_of_le (s : Bool) {k l : Nat} (h : k ≤ l) (hl : (ofQuotient false l 1).isFinite = true) :
    (ofQuotient s k 1).isFinite = true := by
  refine isFinite_ofQuotient_of_le Nat.one_pos Nat.one_pos ?_ hl
  rw [Nat.cast_one, div_one, div_one]
  exact_mod_cast h

theorem size_ofNat_le (s : Bool) {k l : Nat} (h : k ≤ l) (hl : (ofQuotient false l 1).isFinite = true) :
    (ofQuotient s k 1).size ≤ (ofQuotient false l 1).size := by
  refine size_ofQuotient_le Nat.one_pos Nat.one_pos ?_ hl
  rw [Nat.cast_one, div_one, div_one]
  exact_mod_cast h

theorem pow_ten_le {k l : Nat} (h : k ≤ l) : Nat.pow 10 k ≤ Nat.pow 10 l := Nat.pow_le_pow_right (by decide) h

theorem isFinite_powerOfTen {k : Nat} (h : k ≤ topPower) : (powerOfTen k).isFinite = true :=
  isFinite_ofNat_of_le false (pow_ten_le h) (by decide +kernel)

theorem size_powerOfTen_le {k l : Nat} (h : k ≤ l) (hl : l ≤ topPower) : (powerOfTen k).size ≤ (powerOfTen l).size :=
  size_ofNat_le false (pow_ten_le h) (isFinite_powerOfTen hl)

theorem one_le_size_powerOfTen {k : Nat} (h : k ≤ topPower) : 1 ≤ (powerOfTen k).size := by
  have hone : (powerOfTen 0).size = 1 := by
    have hview : (powerOfTen 0).view = .finite false (2 ^ 52) (-52) := by decide +kernel
    rw [size_eq hview, zpow_neg]
    norm_num
  rw [← hone]
  exact size_powerOfTen_le (Nat.zero_le k) h

theorem isFinite_quotient_powerOfTen {d : Double} (hd : d.isFinite = true) {k : Nat} (h : k ≤ topPower) :
    (d.quotient (powerOfTen k)).isFinite = true :=
  isFinite_quotient hd (isFinite_powerOfTen h) (one_le_size_powerOfTen h)

theorem isFinite_lower (rounds : Nat) {d : Double} (hd : d.isFinite = true) : (lower rounds d).isFinite = true := by
  induction rounds generalizing d with
  | zero => exact hd
  | succ rounds ih =>
    rw [lower]
    split
    · exact hd
    · exact ih (isFinite_quotient_powerOfTen hd le_rfl)

theorem isFinite_seventeen : (ofQuotient false (10 ^ 17) 1).isFinite = true := by decide +kernel

/-- The bounds of shortest decimals are well inside the doubles, also after the digits and the power of ten are rounded
    one by one. -/
theorem isFinite_largestDigits {zeros : Nat} (h : zeros ≤ topPower) :
    ((ofQuotient false (largestDigits zeros) 1).product (powerOfTen zeros)).isFinite = true := by
  by_cases hfew : zeros < 292
  · have hlast : ((ofQuotient false (10 ^ 17) 1).product (powerOfTen 291)).isFinite = true := by decide +kernel
    rw [largestDigits, if_pos hfew]
    exact isFinite_product_of_le isFinite_seventeen (isFinite_powerOfTen h) isFinite_seventeen
      (isFinite_powerOfTen (by decide)) le_rfl (size_powerOfTen_le (by omega) (by decide)) hlast
  · -- Here each bound is close to the largest double.
    have hmany : ∀ j < 17, ((ofQuotient false (largestDigits (292 + j)) 1).product (powerOfTen (292 + j))).isFinite =
        true := by decide +kernel
    have htop : topPower = 308 := rfl
    obtain ⟨j, rfl⟩ : ∃ j, zeros = 292 + j := ⟨zeros - 292, by omega⟩
    exact hmany j (by omega)

theorem largestDigits_le (zeros : Nat) : largestDigits zeros ≤ 10 ^ 17 := by
  unfold largestDigits
  split
  · exact le_rfl
  · exact (Nat.div_le_self _ _).trans (by norm_num)

theorem largestDigits_eq_zero {zeros : Nat} (h : topPower < zeros) : largestDigits zeros = 0 := by
  have hzeros : 17 ≤ zeros - 292 := by
    have : 308 < zeros := h
    omega
  rw [largestDigits, if_neg (by omega), Nat.div_eq_of_lt]
  exact (by norm_num : 17976931348623157 < 10 ^ 17).trans_le (Nat.pow_le_pow_right (by norm_num) hzeros)

/-- Digits within the bounds of shortest decimals are never scaled beyond the doubles. -/
theorem isFinite_scaleDecimal (negative : Bool) {digits : Nat} {exponent : Int} (hdigits : digits < 2 ^ 64)
    (hzeros : ∀ zeros : Nat, exponent = zeros → digits ≤ largestDigits zeros) :
    (scaleDecimal negative digits exponent).isFinite = true := by
  have hstart : (ofQuotient negative digits 1).isFinite = true :=
    isFinite_ofNat_of_le negative hdigits.le (by decide +kernel)
  unfold scaleDecimal
  cases exponent with
  | ofNat zeros =>
    have hle := hzeros zeros rfl
    by_cases htop : zeros ≤ topPower
    · simp only [if_pos htop]
      have hlargest := isFinite_ofNat_of_le false (largestDigits_le zeros) isFinite_seventeen
      exact isFinite_product_of_le hstart (isFinite_powerOfTen htop) hlargest (isFinite_powerOfTen htop)
        (size_ofNat_le negative hle hlargest) le_rfl (isFinite_largestDigits htop)
    · rw [largestDigits_eq_zero (not_le.1 htop), Nat.le_zero] at hle
      simp only [if_neg htop, if_pos hle]
      exact hstart
  | negSucc k =>
    refine isFinite_quotient_powerOfTen (isFinite_lower _ hstart) ?_
    have hdiv := Nat.div_add_mod k topPower
    have hmod := Nat.mod_lt k (by decide : 0 < topPower)
    rw [Nat.mul_comm] at hdiv
    omega

/-! ### A single rounding -/

/-- A number of at most 53 bits, with zeros behind them, is a double. -/
theorem exists_view_ofQuotient {c : Nat} (hc : 0 < c) (hbits : c < 2 ^ 53) {j : Nat} (hj : j ≤ 900) :
    ∃ m q, (ofQuotient s (c * 2 ^ j) 1).view = .finite s m q ∧ (m : ℚ) * 2 ^ q = c * 2 ^ j := by
  have hlow := Nat.log2_self_le hc.ne'
  have hhigh := @Nat.lt_log2_self c
  have hlog : c.log2 ≤ 52 := Nat.lt_succ_iff.1 ((Nat.pow_lt_pow_iff_right (by norm_num)).1 (hlow.trans_lt hbits))
  obtain ⟨i, hi⟩ : ∃ i, c.log2 + i = 52 := ⟨52 - c.log2, by omega⟩
  have hvalue : ((c * 2 ^ i : Nat) : ℚ) * 2 ^ ((j : Int) - i) = c * 2 ^ j := by
    rw [zpow_sub₀ (by norm_num), zpow_natCast, zpow_natCast]
    push_cast
    field_simp
  have hrep : Representable (c * 2 ^ i) (j - i) := by
    refine ⟨by omega, by omega, ?_, .inr ?_⟩
    · calc c * 2 ^ i < 2 ^ (c.log2 + 1) * 2 ^ i := Nat.mul_lt_mul_of_pos_right hhigh (Nat.pow_pos (by norm_num))
        _ = 2 ^ 53 := by rw [← pow_add, show c.log2 + 1 + i = 53 by omega]
    · calc 2 ^ 52 = 2 ^ c.log2 * 2 ^ i := by rw [← pow_add, hi]
        _ ≤ c * 2 ^ i := Nat.mul_le_mul_right _ hlow
  refine ⟨_, _, ?_, hvalue⟩
  rw [ofQuotient_eq_self hrep (Nat.mul_pos hc (Nat.pow_pos (by norm_num))) Nat.one_pos, view_ofMagnitude s hrep]
  rw [hvalue]
  push_cast
  ring

theorem exists_view_powerOfTen {k : Nat} (h : k ≤ 22) :
    ∃ m q, 0 < m ∧ (powerOfTen k).view = .finite false m q ∧ (m : ℚ) * 2 ^ q = 10 ^ k := by
  have hfive : 5 ^ k < 2 ^ 53 := (Nat.pow_le_pow_right (by norm_num) h).trans_lt (by norm_num)
  obtain ⟨m, q, hview, hvalue⟩ := exists_view_ofQuotient (s := false) (Nat.pow_pos (by norm_num) : 0 < 5 ^ k) hfive
    (by omega : k ≤ 900)
  have hpower : (Nat.pow 10 k) = 5 ^ k * 2 ^ k := by
    rw [Nat.pow_eq, ← Nat.mul_pow]
  have hten : (m : ℚ) * 2 ^ q = 10 ^ k := by
    rw [hvalue]
    push_cast
    rw [← mul_pow]
    norm_num
  refine ⟨m, q, ?_, by rw [powerOfTen, hpower, hview], hten⟩
  rcases Nat.eq_zero_or_pos m with rfl | hm
  · rw [Nat.cast_zero, zero_mul] at hten
    exact absurd hten.symm (by positivity)
  · exact hm

/-- With digits that are a double themselves, as the power of ten is, scaling rounds once and so gives the nearest
    double. -/
theorem scaleDecimal_eq {negative : Bool} {digits : Nat} {exponent : Int} (hrep : Representable m q) (hm : 0 < m)
    (hdigits : digits < 2 ^ 53) (hlow : -22 ≤ exponent) (hhigh : exponent ≤ 22)
    (h : Rounds m q (digits * 10 ^ exponent)) :
    scaleDecimal negative digits exponent = ofMagnitude negative (magnitude m q) := by
  have hpos := h.digits_pos hm
  obtain ⟨m', q', hview, hvalue⟩ := exists_view_ofQuotient (s := negative) hpos hdigits (by norm_num : 0 ≤ 900)
  rw [pow_zero, mul_one] at hview hvalue
  have hsign : (negative != false) = negative := by cases negative <;> rfl
  have hten := ten_zpow_pos exponent
  have hresult : 0 < (digits : ℚ) * 10 ^ exponent := by positivity
  unfold scaleDecimal
  cases exponent with
  | ofNat k =>
    have hk : k ≤ 22 := by simpa using hhigh
    obtain ⟨n, f, -, hpower, hsize⟩ := exists_view_powerOfTen hk
    obtain ⟨num, den, hden, heq, hproduct⟩ := exists_product hview hpower
    simp only [if_pos (hk.trans (by decide : 22 ≤ topPower))]
    rw [hvalue, hsize] at heq
    rw [hproduct, hsign]
    rw [Int.ofNat_eq_natCast, zpow_natCast, ← heq] at h hresult
    refine ofQuotient_eq hrep ?_ hden h
    rcases Nat.eq_zero_or_pos num with rfl | hnum
    · simp at hresult
    · exact hnum
  | negSucc k =>
    have hk : k + 1 ≤ 22 := by omega
    have hrounds : k / topPower = 0 := Nat.div_eq_of_lt (by have : topPower = 308 := rfl; omega)
    obtain ⟨n, f, hn, hpower, hsize⟩ := exists_view_powerOfTen hk
    obtain ⟨num, den, hden, heq, hquotient⟩ := exists_quotient hview hpower hn
    simp only [hrounds, Nat.zero_mul, Nat.sub_zero, lower]
    rw [hvalue, hsize] at heq
    rw [hquotient, hsign]
    rw [zpow_negSucc, ← div_eq_mul_inv, ← heq] at h hresult
    refine ofQuotient_eq hrep ?_ hden h
    rcases Nat.eq_zero_or_pos num with rfl | hnum
    · simp at hresult
    · exact hnum

end SwiftForge.Double
