import SwiftForge.Proofs.Decimal.Nearest

/-! Rounding keeps the order. A smaller quotient is never rounded to a larger double, so a bound on what is rounded is a
    bound on the result, and what lies below a quotient that stays finite stays finite. -/

namespace SwiftForge.Double

/-! ### Doubles -/

/-- The bits below the sign that a quotient is rounded to, if they are not too many. -/
def quotientMagnitude (num den : Nat) : Nat :=
  let exponent := max (leadingBit num den - 52) (-1074)
  let s := scaleBinary num den (-exponent)
  magnitude (roundDiv s.1 s.2) exponent

variable {num den num' den' m : Nat} {q : Int} {s : Bool}

theorem ofQuotient_zero (negative : Bool) (den : Nat) : ofQuotient negative 0 den = ofMagnitude negative 0 := rfl

theorem ofQuotient_eq_ofMagnitude (negative : Bool) (hnum : 0 < num) (den : Nat) :
    ofQuotient negative num den = ofMagnitude negative (min (quotientMagnitude num den) infiniteMagnitude) := by
  rw [ofQuotient, if_neg hnum.ne']
  rfl

/-- A positive quotient is rounded at an exponent where it has at most 53 bits, and fewer only at the smallest one. -/
theorem exists_nearest (hnum : 0 < num) (hden : 0 < den) : ∃ (k : Nat) (e : Int), -1074 ≤ e ∧ k ≤ 2 ^ 53 ∧
    (e = -1074 ∨ 2 ^ 52 ≤ k) ∧ Nearest k (num / den / 2 ^ e) ∧ e = max (leadingBit num den - 52) (-1074) ∧
      quotientMagnitude num den = magnitude k e := by
  obtain ⟨hlow, hhigh⟩ := leadingBit_bounds hnum hden
  obtain ⟨e, he⟩ : ∃ e, e = max (leadingBit num den - 52) (-1074) := ⟨_, rfl⟩
  obtain ⟨hd, heq⟩ := scaleBinary_eq num hden (-e)
  have hp := two_zpow_pos e
  have hnear := roundDiv_nearest (scaleBinary num den (-e)).1 hd
  rw [heq, zpow_neg, ← div_eq_mul_inv] at hnear
  refine ⟨_, e, by omega, ?_, ?_, hnear, he, by rw [quotientMagnitude, ← he]⟩
  · have hx : (num : ℚ) / den / 2 ^ e < 2 ^ 53 := by
      rw [div_lt_iff₀ hp, ← two_zpow_add]
      exact hhigh.trans_le (zpow_le_zpow_right₀ (by norm_num) (by push_cast; omega))
    have hk := hnear.low.trans_lt hx
    have : ((roundDiv (scaleBinary num den (-e)).1 (scaleBinary num den (-e)).2 : Nat) : ℚ) < (2 ^ 53 + 1 : Nat) := by
      push_cast
      linarith
    have := Nat.cast_lt.1 this
    omega
  · refine or_iff_not_imp_left.2 fun hne => ?_
    have hx : (2 : ℚ) ^ 52 ≤ num / den / 2 ^ e := by
      rw [le_div_iff₀ hp, ← two_zpow_add]
      exact (zpow_le_zpow_right₀ (by norm_num) (by push_cast; omega)).trans hlow
    have hk := hx.trans hnear.high
    have : ((2 ^ 52 : Nat) : ℚ) < (roundDiv (scaleBinary num den (-e)).1 (scaleBinary num den (-e)).2 + 1 : Nat) := by
      push_cast
      linarith
    have := Nat.cast_lt.1 this
    omega

/-- A smaller quotient is not rounded to a larger double. -/
theorem quotientMagnitude_mono (hnum : 0 < num) (hden : 0 < den) (hden' : 0 < den')
    (h : (num : ℚ) / den ≤ num' / den') : quotientMagnitude num den ≤ quotientMagnitude num' den' := by
  have hpos : (0 : ℚ) < num / den := by positivity
  have hnum' : 0 < num' := by
    rcases Nat.eq_zero_or_pos num' with rfl | hpos'
    · rw [Nat.cast_zero, zero_div] at h
      exact absurd h hpos.not_ge
    · exact hpos'
  obtain ⟨k, e, he, hk, -, hnear, hexp, hmag⟩ := exists_nearest hnum hden
  obtain ⟨l, f, hf, -, hl, hnear', hexp', hmag'⟩ := exists_nearest hnum' hden'
  have hle : e ≤ f := by
    have hlead := (leadingBit_bounds hnum hden).1.trans_lt (h.trans_lt (leadingBit_bounds hnum' hden').2)
    have := (zpow_lt_zpow_iff_right₀ (by norm_num : (1 : ℚ) < 2)).1 hlead
    omega
  rw [hmag, hmag', magnitude, magnitude]
  rcases hle.eq_or_lt with rfl | hlt
  · have := hnear.mono hnear' (div_le_div_of_nonneg_right h (two_zpow_pos e).le)
    omega
  · -- At a larger exponent a number has all its bits, and so is beyond those of a smaller one.
    have : 2 ^ 52 ≤ l := hl.resolve_left (by omega)
    have hstep : (e + 1074).toNat + 1 ≤ (f + 1074).toNat := by omega
    omega

theorem isFinite_ofMagnitude_iff {magnitude : Nat} (h : magnitude ≤ infiniteMagnitude) :
    (ofMagnitude s magnitude).isFinite = true ↔ magnitude < infiniteMagnitude := by
  have hp : Nat.pow 2 52 = 4503599627370496 := rfl
  have hp' : Nat.pow 2 63 = 9223372036854775808 := rfl
  have hp'' : Nat.pow 2 11 = 2048 := rfl
  simp only [infiniteMagnitude, hp] at h ⊢
  simp only [isFinite, exponentField, ofMagnitude, UInt64.toNat_ofNat', hp, hp', hp'', bne_iff_ne, ne_eq]
  cases s <;> simp <;> omega

theorem isFinite_ofQuotient_zero (den : Nat) : (ofQuotient s 0 den).isFinite = true := by
  rw [ofQuotient_zero, isFinite_ofMagnitude_iff (Nat.zero_le _)]
  decide

theorem isFinite_ofQuotient_iff (hnum : 0 < num) :
    (ofQuotient s num den).isFinite = true ↔ quotientMagnitude num den < infiniteMagnitude := by
  rw [ofQuotient_eq_ofMagnitude s hnum, isFinite_ofMagnitude_iff (min_le_right ..), min_lt_iff,
    or_iff_left (lt_irrefl _)]

/-- What is not above a quotient that stays finite stays finite. -/
theorem isFinite_ofQuotient_of_le {s' : Bool} (hden : 0 < den) (hden' : 0 < den')
    (h : (num : ℚ) / den ≤ num' / den') (hfinite : (ofQuotient s' num' den').isFinite = true) :
    (ofQuotient s num den).isFinite = true := by
  rcases Nat.eq_zero_or_pos num with rfl | hnum
  · exact isFinite_ofQuotient_zero den
  · have hpos : (0 : ℚ) < num / den := by positivity
    have hnum' : 0 < num' := by
      by_contra hzero
      rw [Nat.eq_zero_of_not_pos hzero, Nat.cast_zero, zero_div] at h
      exact absurd h hpos.not_ge
    rw [isFinite_ofQuotient_iff hnum'] at hfinite
    rw [isFinite_ofQuotient_iff hnum]
    exact (quotientMagnitude_mono hnum hden hden' h).trans_lt hfinite

/-! ### Values -/

/-- A finite double is what its view says. -/
theorem exists_view {d : Double} (h : d.isFinite = true) : ∃ negative m q, d.view = .finite negative m q := by
  have hexponent : d.exponentField ≠ 2047 := by simpa [isFinite] using h
  rw [view, if_neg hexponent]
  split
  · exact ⟨_, _, _, rfl⟩
  · exact ⟨_, _, _, rfl⟩

theorem isFinite_of_view {d : Double} (h : d.view = .finite s m q) : d.isFinite = true := by
  by_contra hfinite
  have hexponent : d.exponentField = 2047 := by simpa [isFinite] using hfinite
  rw [view, if_pos hexponent] at h
  split at h <;> cases h

theorem view_ofMagnitude (negative : Bool) (hrep : Representable m q) :
    (ofMagnitude negative (magnitude m q)).view = .finite negative m q := by
  obtain ⟨hlow, hhigh, hbound, hfull⟩ := hrep
  have hp : Nat.pow 2 52 = 4503599627370496 := rfl
  have hp' : Nat.pow 2 63 = 9223372036854775808 := rfl
  have hp'' : Nat.pow 2 11 = 2048 := rfl
  have hlt := magnitude_lt ⟨hlow, hhigh, hbound, hfull⟩
  simp only [infiniteMagnitude, hp] at hlt
  have hbits : (ofMagnitude negative (magnitude m q)).bits.toNat =
      magnitude m q + if negative then 9223372036854775808 else 0 := by
    rw [ofMagnitude, UInt64.toNat_ofNat', hp']
    cases negative <;> simp <;> omega
  have hmag : magnitude m q = m + (q + 1074).toNat * 4503599627370496 := rfl
  simp only [view, exponentField, fractionField, isNegative, hbits, hp, hp', hp'']
  generalize magnitude m q = bits at *
  have hnot : ¬(bits + if negative then 9223372036854775808 else 0) / 4503599627370496 % 2048 = 2047 := by
    cases negative <;> simp <;> omega
  have hsign : ((bits + if negative then 9223372036854775808 else 0) / 9223372036854775808 == 1) = negative := by
    cases negative <;> simp <;> omega
  rw [if_neg hnot, hsign]
  by_cases hsub : m < 4503599627370496
  · have hq : q = -1074 := hfull.resolve_right (by omega)
    subst hq
    rw [if_pos (by cases negative <;> simp <;> omega)]
    congr 1
    cases negative <;> simp <;> omega
  · rw [if_neg (by cases negative <;> simp <;> omega)]
    congr 1 <;> cases negative <;> simp <;> omega

/-- The absolute value of a finite double. -/
def size (d : Double) : ℚ :=
  match d.view with
  | .finite _ m q => m * 2 ^ q
  | _ => 0

theorem size_zero (negative : Bool) : (ofMagnitude negative 0).size = 0 := by
  have hview : (ofMagnitude negative 0).view = .finite negative 0 (-1074) := by cases negative <;> rfl
  rw [size, hview]
  exact zero_mul _

theorem size_ofMagnitude (hrep : Representable m q) : (ofMagnitude s (magnitude m q)).size = m * 2 ^ q := by
  rw [size, view_ofMagnitude s hrep]

/-- More bits below the sign mean a larger number. -/
theorem size_le_of_magnitude_le {m' : Nat} {q' : Int} (hrep : Representable m q) (hrep' : Representable m' q')
    (h : magnitude m q ≤ magnitude m' q') : (m : ℚ) * 2 ^ q ≤ m' * 2 ^ q' := by
  have hp := two_zpow_pos q
  rw [magnitude, magnitude] at h
  obtain ⟨hlow, -, hbound, hfull⟩ := hrep
  obtain ⟨hlow', -, hbound', hfull'⟩ := hrep'
  rcases lt_trichotomy q q' with hlt | rfl | hgt
  · obtain ⟨j, rfl⟩ : ∃ j : Nat, q' = q + (j + 1 : Nat) := ⟨(q' - q).toNat - 1, by omega⟩
    have hm' : 2 ^ 52 ≤ m' := hfull'.resolve_left (by omega)
    rw [two_zpow_add, ← mul_assoc]
    refine mul_le_mul_of_nonneg_right ?_ hp.le
    have hj : 2 * 1 ≤ 2 ^ (j + 1) := by
      rw [pow_succ, mul_comm]
      exact Nat.mul_le_mul_right 2 Nat.one_le_two_pow
    have : m ≤ m' * 2 ^ (j + 1) := by
      calc m ≤ 2 ^ 52 * 2 := by omega
        _ ≤ m' * 2 ^ (j + 1) := Nat.mul_le_mul hm' (by omega)
    exact_mod_cast this
  · have : m ≤ m' := by omega
    exact mul_le_mul_of_nonneg_right (by exact_mod_cast this) hp.le
  · have hm : 2 ^ 52 ≤ m := hfull.resolve_left (by omega)
    have hstep : (q' + 1074).toNat + 1 ≤ (q + 1074).toNat := by omega
    have hequal : m = 2 ^ 52 ∧ m' = 2 ^ 53 - 1 + 1 := by omega
    omega

/-- The double that a quotient is rounded to, if it stays finite. -/
theorem exists_ofQuotient (hnum : 0 < num) (hfinite : (ofQuotient s num den).isFinite = true) :
    ∃ m q, Representable m q ∧ quotientMagnitude num den = magnitude m q ∧
      ofQuotient s num den = ofMagnitude s (magnitude m q) := by
  rw [isFinite_ofQuotient_iff hnum] at hfinite
  have heq := ofQuotient_eq_ofMagnitude s hnum den
  rw [min_eq_left hfinite.le] at heq
  have hplain : (ofMagnitude false (quotientMagnitude num den)).isFinite = true :=
    (isFinite_ofMagnitude_iff hfinite.le).2 hfinite
  obtain ⟨negative, m, q, hview⟩ := exists_view hplain
  obtain ⟨hrep, hof⟩ := view_eq_finite hview
  have hlt := magnitude_lt hrep
  have hmag : quotientMagnitude num den = magnitude m q := by
    have hbits := congrArg (fun d => d.bits.toNat) hof
    have hp : Nat.pow 2 52 = 4503599627370496 := rfl
    have hp' : Nat.pow 2 63 = 9223372036854775808 := rfl
    simp only [infiniteMagnitude, hp] at hlt hfinite
    simp only [ofMagnitude, UInt64.toNat_ofNat', hp'] at hbits
    cases negative <;> simp at hbits <;> omega
  exact ⟨m, q, hrep, hmag, by rw [heq, hmag]⟩

/-- A smaller quotient is rounded to a double that is not larger. -/
theorem size_ofQuotient_le {s' : Bool} (hden : 0 < den) (hden' : 0 < den') (h : (num : ℚ) / den ≤ num' / den')
    (hfinite : (ofQuotient s' num' den').isFinite = true) :
    (ofQuotient s num den).size ≤ (ofQuotient s' num' den').size := by
  have hnonneg : 0 ≤ (ofQuotient s' num' den').size := by
    rw [size]
    split
    · exact mul_nonneg (Nat.cast_nonneg _) (two_zpow_pos _).le
    · exact le_rfl
  rcases Nat.eq_zero_or_pos num with rfl | hnum
  · rwa [ofQuotient_zero, size_zero]
  · have hpos : (0 : ℚ) < num / den := by positivity
    have hnum' : 0 < num' := by
      by_contra hzero
      rw [Nat.eq_zero_of_not_pos hzero, Nat.cast_zero, zero_div] at h
      exact absurd h hpos.not_ge
    obtain ⟨m, q, hrep, hmag, heq⟩ := exists_ofQuotient (s := s) hnum
      (isFinite_ofQuotient_of_le hden hden' h hfinite)
    obtain ⟨m', q', hrep', hmag', heq'⟩ := exists_ofQuotient hnum' hfinite
    rw [heq, heq', size_ofMagnitude hrep, size_ofMagnitude hrep']
    refine size_le_of_magnitude_le hrep hrep' ?_
    rw [← hmag, ← hmag']
    exact quotientMagnitude_mono hnum hden hden' h

end SwiftForge.Double
