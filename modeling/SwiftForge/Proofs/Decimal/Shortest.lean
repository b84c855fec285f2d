import SwiftForge.Decimal.Shortest
import SwiftForge.Proofs.Decimal.Nearest

/-! The shortest decimal of a double rounds to it. The interval that the search works with is the interval of
    rationals that round to the double, counted in units of a power of ten; some grid of at most seventeen digits
    has a neighbour of the value inside it, so the search ends with a hit. -/

namespace SwiftForge.Decimal
open Double

/-! ### The interval of a double -/

namespace Interval

/-- The ends and the value of an interval, as rationals. -/
structure Measures (i : Interval) (low value high : ℚ) : Prop where
  den_pos : 0 < i.den
  low_eq : (i.low : ℚ) / i.den = low
  value_eq : (i.value : ℚ) / i.den = value
  high_eq : (i.high : ℚ) / i.den = high

theorem measures_ofBinary {m : Nat} (hm : 0 < m) (q : Int) :
    (ofBinary m q).Measures ((m - gapBelow m q) * 2 ^ q) (m * 2 ^ q) ((m + 1 / 2) * 2 ^ q) := by
  -- The ends are counted in quarters of a unit: the gap below is one of them or two.
  have hbelow : ∃ b : Nat, b ≤ 2 ∧ (if m = Nat.pow 2 52 ∧ q ≠ -1074 then 1 else 2) = b ∧
      gapBelow m q = b / 4 := by
    unfold gapBelow
    by_cases h : m = 2 ^ 52 ∧ q ≠ -1074
    · exact ⟨1, by omega, if_pos h, by rw [if_pos h]; norm_num⟩
    · exact ⟨2, by omega, if_neg h, by rw [if_neg h]; norm_num⟩
  obtain ⟨b, hb, hif, hgap⟩ := hbelow
  have hq : (2 : ℚ) ^ q = 4 * 2 ^ (q - 2) := by
    rw [zpow_sub₀ (by norm_num)]
    norm_num
    ring
  have hcast : ((4 * m - b : Nat) : ℚ) = 4 * m - b := by
    rw [Nat.cast_sub (by omega)]
    push_cast
    ring
  rw [hgap, hq]
  unfold ofBinary
  rw [hif]
  cases q - 2 with
  | ofNat n =>
    refine ⟨Nat.one_pos, ?_, ?_, ?_⟩ <;>
      simp only [Nat.pow_eq, Nat.cast_mul, hcast, Int.ofNat_eq_natCast, zpow_natCast] <;> push_cast <;> ring
  | negSucc n =>
    refine ⟨Nat.pow_pos (by omega), ?_, ?_, ?_⟩ <;>
      simp only [Nat.pow_eq, hcast, zpow_negSucc] <;> push_cast <;> ring

theorem closed_ofBinary (m : Nat) (q : Int) : (ofBinary m q).closed = decide (m % 2 = 0) := by
  unfold ofBinary
  simp only
  split <;> rfl

theorem Measures.inUnits {i : Interval} {low value high : ℚ} (h : i.Measures low value high) (e : Int) :
    (i.inUnits e).Measures (low / 10 ^ e) (value / 10 ^ e) (high / 10 ^ e) := by
  obtain ⟨hd, rfl, rfl, rfl⟩ := h
  have hd' : (i.den : ℚ) ≠ 0 := by positivity
  cases e with
  | ofNat n =>
    refine ⟨Nat.mul_pos hd (Nat.pow_pos (by omega)), ?_, ?_, ?_⟩ <;>
      simp only [Interval.inUnits, Nat.pow_eq, Int.ofNat_eq_natCast, zpow_natCast] <;> push_cast <;> field_simp
  | negSucc n =>
    refine ⟨hd, ?_, ?_, ?_⟩ <;>
      simp only [Interval.inUnits, Nat.pow_eq, zpow_negSucc] <;> push_cast <;> field_simp

theorem closed_inUnits (i : Interval) (e : Int) : (i.inUnits e).closed = i.closed := by
  cases e <;> rfl

variable {i : Interval} {low value high : ℚ}

/-- A number of units that the interval holds is between its ends, and strictly so if they do not count. -/
theorem Measures.of_holds (h : i.Measures low value high) {n : Nat} (hn : i.holds n = true) :
    low ≤ n ∧ n ≤ high ∧ (i.closed = false → low < n ∧ n < high) := by
  obtain ⟨hd, rfl, rfl, rfl⟩ := h
  have hd' : (0 : ℚ) < i.den := by positivity
  rw [div_le_iff₀ hd', le_div_iff₀ hd', div_lt_iff₀ hd', lt_div_iff₀ hd']
  unfold holds at hn
  cases hc : i.closed
  · simp only [hc, Bool.false_eq_true, if_false, Bool.and_eq_true, decide_eq_true_eq] at hn
    have h1 : (i.low : ℚ) < n * i.den := by exact_mod_cast hn.1
    have h2 : (n : ℚ) * i.den < i.high := by exact_mod_cast hn.2
    exact ⟨h1.le, h2.le, fun _ => ⟨h1, h2⟩⟩
  · simp only [hc, if_true, Bool.and_eq_true, decide_eq_true_eq] at hn
    exact ⟨by exact_mod_cast hn.1, by exact_mod_cast hn.2, fun h => absurd h (by simp)⟩

theorem Measures.holds (h : i.Measures low value high) {n : Nat} (h1 : low < n) (h2 : n < high) :
    i.holds n = true := by
  obtain ⟨hd, rfl, rfl, rfl⟩ := h
  have hd' : (0 : ℚ) < i.den := by positivity
  rw [div_lt_iff₀ hd'] at h1
  rw [lt_div_iff₀ hd'] at h2
  have h1' : i.low < n * i.den := by exact_mod_cast h1
  have h2' : n * i.den < i.high := by exact_mod_cast h2
  unfold Interval.holds
  split <;> simp <;> omega

theorem holds_of_pick {tie : Tie} {n : Nat} (h : i.pick tie = some n) : i.holds n = true := by
  unfold pick at h
  simp only at h
  split at h
  · exact absurd h (by simp)
  · rename_i hl _
    obtain rfl := Option.some.inj h
    exact hl
  · rename_i _ hu
    obtain rfl := Option.some.inj h
    exact hu
  · rename_i hl hu
    split at h
    · obtain rfl := Option.some.inj h
      exact hl
    · split at h
      · obtain rfl := Option.some.inj h
        exact hu
      · cases tie with
        | up =>
          obtain rfl := Option.some.inj h
          exact hu
        | toEven =>
          obtain rfl := Option.some.inj h
          split <;> assumption

theorem pick_eq_none {tie : Tie} (h : i.pick tie = none) :
    i.holds (i.value / i.den) = false ∧ i.holds (i.value / i.den + 1) = false := by
  unfold pick at h
  simp only at h
  split at h
  · rename_i hl hu
    exact ⟨hl, hu⟩
  · exact absurd h (by simp)
  · exact absurd h (by simp)
  · split at h
    · exact absurd h (by simp)
    · split at h
      · exact absurd h (by simp)
      · cases tie <;> exact absurd h (by simp)

end Interval

/-- A decimal in the interval of a double rounds to it. -/
theorem rounds_of_holds {m n : Nat} (hm : 0 < m) {q e : Int}
    (h : ((Interval.ofBinary m q).inUnits e).holds n = true) : Rounds m q (n * 10 ^ e) := by
  have hp := ten_zpow_pos e
  obtain ⟨h1, h2, h3⟩ := ((Interval.measures_ofBinary hm q).inUnits e).of_holds h
  rw [Interval.closed_inUnits, Interval.closed_ofBinary] at h3
  refine ⟨by rwa [div_le_iff₀ hp] at h1, by rwa [le_div_iff₀ hp] at h2, fun hodd => ?_⟩
  obtain ⟨h4, h5⟩ := h3 (by simp [hodd])
  rw [gapBelow, if_neg (fun h => by rw [h.1] at hodd; norm_num at hodd), div_lt_iff₀ hp] at h4
  exact ⟨h4, by rwa [lt_div_iff₀ hp] at h5⟩

/-! ### The search -/

/-- The grid of seventeen digits always has a neighbour of the value inside the interval: its unit is less than
    the distance between doubles. -/
theorem pick_ne_none {tie : Tie} {m : Nat} {q p : Int} (hm : 0 < m) (hrep : Representable m q)
    (hp : (10 : ℚ) ^ (p - 1) ≤ m * 2 ^ q) : ((Interval.ofBinary m q).inUnits (p - 17)).pick tie ≠ none := by
  intro hnone
  obtain ⟨hl, hu⟩ := Interval.pick_eq_none hnone
  have hmeas := (Interval.measures_ofBinary hm q).inUnits (p - 17)
  have hten := ten_zpow_pos (p - 17)
  -- The distance to the next double and the value, both in units of the grid.
  obtain ⟨g, hg⟩ : ∃ g : ℚ, g = 2 ^ q / 10 ^ (p - 17) := ⟨_, rfl⟩
  have hgpos : 0 < g := by rw [hg]; exact div_pos (two_zpow_pos q) hten
  have hw : 10 ^ 16 ≤ (m : ℚ) * g := by
    rw [hg, ← mul_div_assoc, le_div_iff₀ hten]
    refine le_trans (le_of_eq ?_) hp
    rw [show (p - 1 : Int) = (16 : Nat) + (p - 17) by push_cast; ring, zpow_add₀ (by norm_num), zpow_natCast]
  rw [mul_div_assoc, mul_div_assoc, mul_div_assoc, ← hg] at hmeas
  generalize (Interval.ofBinary m q).inUnits (p - 17) = i at *
  have hfloor : ((i.value / i.den : Nat) : ℚ) ≤ m * g ∧ (m : ℚ) * g < (i.value / i.den : Nat) + 1 := by
    have hd : (0 : ℚ) < i.den := by exact_mod_cast hmeas.den_pos
    rw [← hmeas.value_eq, le_div_iff₀ hd, div_lt_iff₀ hd]
    exact ⟨by exact_mod_cast Nat.div_mul_le_self _ _, by
      exact_mod_cast (Nat.div_lt_iff_lt_mul hmeas.den_pos).mp (Nat.lt_succ_self (i.value / i.den))⟩
  obtain ⟨hf1, hf2⟩ := hfloor
  generalize i.value / i.den = k at *
  have hm2 : (m : ℚ) ≤ 2 ^ 53 := by exact_mod_cast hrep.bound.le
  have hg1 : 1 < g := by
    by_contra hle
    have : (m : ℚ) * g ≤ 2 ^ 53 * 1 := mul_le_mul hm2 (not_lt.mp hle) hgpos.le (by norm_num)
    norm_num at this hw
    linarith
  have no_lower : ¬ ((m - gapBelow m q) * g < k) := fun h => by
    have := hmeas.holds h (by nlinarith)
    rw [this] at hl
    exact absurd hl (by simp)
  have no_upper : ¬ ((k : ℚ) + 1 < (m + 1 / 2) * g) := fun h => by
    have hgap := (gapBelow_le m q).1
    have := hmeas.holds (n := k + 1) (by push_cast; nlinarith) (by push_cast; exact h)
    rw [this] at hu
    exact absurd hu (by simp)
  by_cases hbelow : m = 2 ^ 52 ∧ q ≠ -1074
  · have hm52 : (m : ℚ) = 2 ^ 52 := by exact_mod_cast hbelow.1
    apply no_upper
    rw [hm52] at hw hf1 ⊢
    norm_num at hw hf1 ⊢
    linarith
  · rw [gapBelow, if_neg hbelow] at no_lower
    have h1 := not_lt.mp no_lower
    have h2 := not_lt.mp no_upper
    linarith

theorem search_holds {tie : Tie} {i : Interval} {p : Int} : ∀ {fuel n : Nat},
    (∃ k, n ≤ k ∧ k < n + fuel ∧ (i.inUnits (p - k)).pick tie ≠ none) →
      (i.inUnits (search tie i p fuel n).exponent).holds (search tie i p fuel n).digits = true
  | 0, n, h => by
    obtain ⟨k, hk1, hk2, -⟩ := h
    omega
  | fuel + 1, n, h => by
    unfold search
    simp only
    split
    · rename_i digits hpick
      exact Interval.holds_of_pick hpick
    · rename_i hpick
      apply search_holds
      obtain ⟨k, hk1, hk2, hk⟩ := h
      have : n ≠ k := fun heq => hk (heq ▸ hpick)
      exact ⟨k, by omega, by omega, hk⟩

theorem trimZeros_value (fuel : Nat) (d : Numeral) :
    ((trimZeros fuel d).digits : ℚ) * 10 ^ (trimZeros fuel d).exponent = d.digits * 10 ^ d.exponent := by
  induction fuel generalizing d with
  | zero => rfl
  | succ fuel ih =>
    unfold trimZeros
    split
    · rename_i h
      rw [ih]
      have hd : (d.digits : ℚ) = (d.digits / 10 : Nat) * 10 := by
        exact_mod_cast (Nat.div_mul_cancel (Nat.dvd_of_mod_eq_zero h.2)).symm
      rw [hd, zpow_add_one₀ (by norm_num)]
      ring
    · rfl

theorem isBelowPower_iff {num den : Nat} (hden : 0 < den) (k : Int) :
    isBelowPower num den k = true ↔ (num : ℚ) / den < 10 ^ k := by
  have hd : (0 : ℚ) < den := by exact_mod_cast hden
  cases k with
  | ofNat n =>
    simp only [isBelowPower, decide_eq_true_eq, Nat.pow_eq, Int.ofNat_eq_natCast, zpow_natCast]
    rw [div_lt_iff₀ hd, mul_comm den]
    exact_mod_cast Iff.rfl
  | negSucc n =>
    simp only [isBelowPower, decide_eq_true_eq, Nat.pow_eq, zpow_negSucc]
    rw [div_lt_iff₀ hd, inv_mul_eq_div, lt_div_iff₀ (by positivity)]
    exact_mod_cast Iff.rfl

/-- Going down from an upper bound ends at the leading digit, if the fuel lasts. -/
theorem leadingPosition_bounds {num den : Nat} (hden : 0 < den) : ∀ {fuel : Nat} {k : Int},
    (num : ℚ) / den < 10 ^ k → (10 : ℚ) ^ (k - fuel - 1) ≤ num / den →
      (10 : ℚ) ^ (leadingPosition num den fuel k - 1) ≤ num / den
  | 0, k, _, hlo => by simpa [leadingPosition] using hlo
  | fuel + 1, k, hhi, hlo => by
    unfold leadingPosition
    split
    · rename_i h
      refine leadingPosition_bounds hden ((isBelowPower_iff hden _).mp h) (le_trans (le_of_eq ?_) hlo)
      congr 1
      push_cast
      ring
    · rename_i h
      exact not_lt.mp fun hlt => h ((isBelowPower_iff hden _).mpr hlt)

/-- Thirty-one hundredths of the bits, or thirty of a negative number of them, and two more are enough digits. -/
theorem two_zpow_le_start (bits : Int) :
    (2 : ℚ) ^ bits ≤ 10 ^ (if bits ≥ 0 then bits * 31 / 100 + 2 else bits * 30 / 100 + 2) := by
  rw [← pow_le_pow_iff_left₀ (two_zpow_pos _).le (ten_zpow_pos _).le (n := 100) (by norm_num)]
  rw [← zpow_natCast, ← zpow_natCast, ← zpow_mul, ← zpow_mul, mul_comm bits, zpow_mul]
  split
  · rename_i h
    obtain ⟨n, rfl⟩ := Int.eq_ofNat_of_zero_le h
    calc ((2 : ℚ) ^ ((100 : Nat) : Int)) ^ (n : Int) ≤ ((10 : ℚ) ^ (31 : Int)) ^ (n : Int) := by
          rw [zpow_natCast, zpow_natCast]
          exact pow_le_pow_left₀ (by positivity) (by norm_num) n
      _ = 10 ^ (31 * (n : Int)) := by rw [← zpow_mul]
      _ ≤ _ := zpow_le_zpow_right₀ (by norm_num) (by push_cast; omega)
  · rename_i h
    obtain ⟨n, hn⟩ := Int.eq_ofNat_of_zero_le (a := -bits) (by omega)
    obtain rfl : bits = -n := by omega
    calc ((2 : ℚ) ^ ((100 : Nat) : Int)) ^ (-(n : Int)) ≤ ((10 : ℚ) ^ (30 : Int)) ^ (-(n : Int)) := by
          rw [zpow_neg, zpow_neg, zpow_natCast, zpow_natCast]
          exact inv_anti₀ (by positivity) (pow_le_pow_left₀ (by positivity) (by norm_num) n)
      _ = 10 ^ (30 * (-(n : Int))) := by rw [← zpow_mul]
      _ ≤ _ := zpow_le_zpow_right₀ (by norm_num) (by push_cast; omega)

theorem leadingPosition_lt {num den : Nat} (hden : 0 < den) : ∀ {fuel : Nat} {k : Int},
    (num : ℚ) / den < 10 ^ k → (num : ℚ) / den < 10 ^ leadingPosition num den fuel k
  | 0, _, h => h
  | fuel + 1, k, h => by
    unfold leadingPosition
    split
    · exact leadingPosition_lt hden ((isBelowPower_iff hden _).mp ‹_›)
    · exact h

/-- The search begins at the leading digit of the value. -/
theorem exists_position (tie : Tie) {m : Nat} {q : Int} (hm : 0 < m) (hrep : Representable m q) : ∃ p : Int,
    shortest tie m q = trimZeros 20 (search tie (Interval.ofBinary m q) p 17 1) ∧
      (10 : ℚ) ^ (p - 1) ≤ m * 2 ^ q ∧ (m : ℚ) * 2 ^ q < 10 ^ p := by
  unfold shortest
  rw [if_neg (by omega)]
  refine ⟨_, rfl, ?_⟩
  have hmeas := Interval.measures_ofBinary hm q
  have hv := hmeas.value_eq
  have hden := hmeas.den_pos
  have hm1 : (1 : ℚ) ≤ m := by exact_mod_cast hm
  have hm2 : (m : ℚ) < 2 ^ 53 := by exact_mod_cast hrep.bound
  have hvpos : (0 : ℚ) < m * 2 ^ q := mul_pos (by linarith) (two_zpow_pos q)
  have hvalue : 0 < (Interval.ofBinary m q).value := by
    rcases Nat.eq_zero_or_pos (Interval.ofBinary m q).value with h0 | h0
    · rw [h0, Nat.cast_zero, zero_div] at hv
      exact absurd hv hvpos.ne
    · exact h0
  obtain ⟨hb1, hb2⟩ := quotient_bounds hvalue hden
  rw [← hv]
  generalize (Interval.ofBinary m q).value = value at *
  generalize (Interval.ofBinary m q).den = den at *
  obtain ⟨bits, hbits⟩ : ∃ bits : Int, bits = (value.log2 : Int) - den.log2 + 1 := ⟨_, rfl⟩
  rw [← hbits]
  rw [← hbits] at hb2
  rw [show (value.log2 : Int) - den.log2 - 1 = bits - 2 by omega] at hb1
  have hstart := hb2.trans_le (two_zpow_le_start bits)
  refine ⟨leadingPosition_bounds hden hstart ?_, leadingPosition_lt hden hstart⟩
  -- The number of bits of a double is small, so four hundred steps go far enough.
  have htwo : (1 : ℚ) < 2 := by norm_num
  have hbits1 : -1074 < bits := by
    have h1 : (2 : ℚ) ^ (-1074 : Int) ≤ 2 ^ q := zpow_le_zpow_right₀ htwo.le hrep.low
    have h2 : (2 : ℚ) ^ q ≤ m * 2 ^ q := le_mul_of_one_le_left (two_zpow_pos q).le hm1
    exact (zpow_lt_zpow_iff_right₀ htwo).mp ((h1.trans h2).trans_lt (hv ▸ hb2))
  have hbits2 : bits - 2 < 1024 := by
    have h1 : (m : ℚ) * 2 ^ q < 2 ^ (53 : Int) * 2 ^ (971 : Int) :=
      mul_lt_mul hm2 (zpow_le_zpow_right₀ htwo.le hrep.high) (two_zpow_pos q) (by positivity)
    rw [← zpow_add₀ (by norm_num)] at h1
    exact (zpow_lt_zpow_iff_right₀ htwo).mp ((hv ▸ hb1).trans h1)
  refine le_trans ?_ hb1.le
  split
  · calc (10 : ℚ) ^ (bits * 31 / 100 + 2 - (400 : Nat) - 1) ≤ 10 ^ (-1 : Int) :=
          zpow_le_zpow_right₀ (by norm_num) (by push_cast; omega)
      _ ≤ 2 ^ (-2 : Int) := by norm_num
      _ ≤ 2 ^ (bits - 2) := zpow_le_zpow_right₀ htwo.le (by omega)
  · calc (10 : ℚ) ^ (bits * 30 / 100 + 2 - (400 : Nat) - 1) ≤ 10 ^ (-324 : Int) :=
          zpow_le_zpow_right₀ (by norm_num) (by push_cast; omega)
      _ ≤ 2 ^ (-1075 : Int) := ten_zpow_lt_two_zpow.le
      _ ≤ 2 ^ (bits - 2) := zpow_le_zpow_right₀ htwo.le (by omega)

/-- The shortest decimal of a double other than zero rounds to it. -/
theorem rounds_shortest (tie : Tie) {m : Nat} {q : Int} (hm : 0 < m) (hrep : Representable m q) :
    Rounds m q ((shortest tie m q).digits * 10 ^ (shortest tie m q).exponent) := by
  obtain ⟨p, heq, hlow, -⟩ := exists_position tie hm hrep
  rw [heq, trimZeros_value]
  apply rounds_of_holds hm
  apply search_holds
  exact ⟨17, by omega, by omega, pick_ne_none hm hrep hlow⟩

/-! ### How many digits -/

theorem Interval.pick_le {tie : Tie} {i : Interval} {n k : Nat} (h : i.pick tie = some n) (hk : i.value / i.den < k) :
    n ≤ k := by
  unfold Interval.pick at h
  simp only at h
  split at h
  · exact absurd h (by simp)
  · obtain rfl := Option.some.inj h
    omega
  · obtain rfl := Option.some.inj h
    omega
  · split at h
    · obtain rfl := Option.some.inj h
      omega
    · split at h
      · obtain rfl := Option.some.inj h
        omega
      · cases tie with
        | up =>
          obtain rfl := Option.some.inj h
          omega
        | toEven =>
          obtain rfl := Option.some.inj h
          split <;> omega

/-- The grid that ends the search has as many digits as steps were made. -/
theorem search_digits_le {tie : Tie} {i : Interval} {low value high : ℚ} (hmeas : i.Measures low value high) {p : Int}
    (hvalue : value < 10 ^ p) : ∀ {fuel n : Nat},
      (∃ k, n ≤ k ∧ k < n + fuel ∧ (i.inUnits (p - k)).pick tie ≠ none) →
        (search tie i p fuel n).digits ≤ 10 ^ (n + fuel - 1)
  | 0, n, h => by
    obtain ⟨k, hk1, hk2, -⟩ := h
    omega
  | fuel + 1, n, h => by
    unfold search
    simp only
    split
    · rename_i digits hpick
      refine (Interval.pick_le hpick ?_).trans (Nat.pow_le_pow_right (by norm_num) (by omega : n ≤ n + (fuel + 1) - 1))
      have hunits := hmeas.inUnits (p - n)
      have hd : (0 : ℚ) < (i.inUnits (p - n)).den := by exact_mod_cast hunits.den_pos
      have hlt : value / 10 ^ (p - n) < 10 ^ n := by
        rw [div_lt_iff₀ (ten_zpow_pos _), ← zpow_natCast, ← zpow_add₀ (by norm_num), add_sub_cancel]
        exact hvalue
      rw [← hunits.value_eq, div_lt_iff₀ hd] at hlt
      exact (Nat.div_lt_iff_lt_mul hunits.den_pos).2 (by exact_mod_cast hlt)
    · rename_i hpick
      obtain ⟨k, hk1, hk2, hk⟩ := h
      have hne : n ≠ k := fun heq => hk (heq ▸ hpick)
      have : (search tie i p fuel (n + 1)).digits ≤ 10 ^ (n + 1 + fuel - 1) :=
        search_digits_le hmeas hvalue ⟨k, by omega, by omega, hk⟩
      rwa [show n + 1 + fuel - 1 = n + (fuel + 1) - 1 by omega] at this

theorem trimZeros_digits_le (fuel : Nat) (d : Numeral) : (trimZeros fuel d).digits ≤ d.digits := by
  induction fuel generalizing d with
  | zero => exact le_rfl
  | succ fuel ih =>
    unfold trimZeros
    split
    · exact (ih _).trans (Nat.div_le_self _ _)
    · exact le_rfl

/-- No double needs more than seventeen digits. -/
theorem digits_shortest_le (tie : Tie) {m : Nat} {q : Int} (hm : 0 < m) (hrep : Representable m q) :
    (shortest tie m q).digits ≤ 10 ^ 17 := by
  obtain ⟨p, heq, hlow, hhigh⟩ := exists_position tie hm hrep
  rw [heq]
  refine (trimZeros_digits_le _ _).trans ?_
  exact search_digits_le (Interval.measures_ofBinary hm q) hhigh
    ⟨17, by omega, by omega, pick_ne_none hm hrep hlow⟩

/-- What rounds to a finite double other than the largest one lies below this. -/
theorem high_le_of_ne_last {m : Nat} {q : Int} (hrep : Representable m q) (hmax : ¬ (m = 2 ^ 53 - 1 ∧ q = 971)) :
    ((m : ℚ) + 1 / 2) * 2 ^ q ≤ (2 ^ 53 - 3 / 2) * 2 ^ (971 : Int) := by
  have hbound := hrep.bound
  rcases hrep.high.lt_or_eq with hq | rfl
  · have hm : (m : ℚ) + 1 ≤ 2 ^ 53 := by exact_mod_cast hbound
    have hp : (2 : ℚ) ^ q ≤ 2 ^ (970 : Int) := zpow_le_zpow_right₀ (by norm_num) (by omega)
    have hpos := two_zpow_pos 970
    calc ((m : ℚ) + 1 / 2) * 2 ^ q ≤ 2 ^ 53 * 2 ^ (970 : Int) :=
          mul_le_mul (by linarith) hp (two_zpow_pos q).le (by norm_num)
      _ ≤ (2 ^ 53 - 3 / 2) * 2 ^ ((970 : Int) + 1) := by
          rw [zpow_add_one₀ (by norm_num)]
          generalize (2 : ℚ) ^ (970 : Int) = p at *
          linarith
  · refine mul_le_mul_of_nonneg_right ?_ (two_zpow_pos _).le
    have hm : m + 1 ≤ 2 ^ 53 - 1 := by omega
    have hcast : (m : ℚ) + 1 ≤ (2 ^ 53 - 1 : Nat) := by exact_mod_cast hm
    norm_num at hcast ⊢
    linarith

theorem below_last_lt : ((2 : ℚ) ^ 53 - 3 / 2) * 2 ^ (971 : Int) < 17976931348623158 * 10 ^ 292 := by
  have hnat : 18014398509481981 * 2 ^ 970 < 17976931348623158 * 10 ^ 292 := by decide +kernel
  have hcast := Nat.cast_lt (α := ℚ).2 hnat
  simp only [Nat.cast_mul, Nat.cast_pow, Nat.cast_ofNat] at hcast
  refine lt_of_eq_of_lt ?_ hcast
  rw [show (971 : Int) = ((970 : Nat) : Int) + 1 by rfl, zpow_add_one₀ (by norm_num), zpow_natCast]
  generalize (2 : ℚ) ^ 970 = p
  ring

/-- The most digits that stand before so many zeros in the shortest decimal of a double. -/
def largestDigits (zeros : Nat) : Nat := if zeros < 292 then 10 ^ 17 else 17976931348623157 / 10 ^ (zeros - 292)

/-- The shortest decimal of a double is not beyond that of the largest one. -/
theorem digits_le_largestDigits (tie : Tie) {m : Nat} {q : Int} (hm : 0 < m) (hrep : Representable m q) {zeros : Nat}
    (h : (shortest tie m q).exponent = zeros) : (shortest tie m q).digits ≤ largestDigits zeros := by
  unfold largestDigits
  split
  · exact digits_shortest_le tie hm hrep
  · rename_i hzeros
    obtain ⟨j, rfl⟩ : ∃ j, zeros = 292 + j := ⟨zeros - 292, by omega⟩
    rw [Nat.le_div_iff_mul_le (Nat.pow_pos (by norm_num)), Nat.add_sub_cancel_left]
    by_cases hmax : m = 2 ^ 53 - 1 ∧ q = 971
    · obtain ⟨rfl, rfl⟩ := hmax
      have hlast : shortest tie (2 ^ 53 - 1) 971 = ⟨17976931348623157, 292⟩ := by
        cases tie <;> decide +kernel
      rw [hlast] at h ⊢
      have hj : j = 0 := by
        simp only at h
        omega
      subst hj
      exact le_rfl
    · -- Every other double rounds from less than the next decimal with so many zeros.
      have hhigh := (rounds_shortest tie hm hrep).high
      rw [h] at hhigh
      have hlt := (hhigh.trans (high_le_of_ne_last hrep hmax)).trans_lt below_last_lt
      rw [zpow_natCast, pow_add, mul_comm ((10 : ℚ) ^ 292), ← mul_assoc] at hlt
      have hdigits := lt_of_mul_lt_mul_right hlt (by positivity)
      have hnat : (shortest tie m q).digits * 10 ^ j < 17976931348623158 := by exact_mod_cast hdigits
      omega

end SwiftForge.Decimal
