import RegexCorpus.Number.Shortest
import RegexCorpus.Proofs.Number.Rounding
import Mathlib.Data.Nat.Digits.Lemmas

/-!
# Shortest decimals round back

The decimal that is written for a double lies near it, so that reading it gives the double again.
Seventeen digits are always enough: on their grid the neighbours of the value are closer to it than
the midpoints are.
-/

namespace RegexCorpus.Double

variable {p : ℤ} {d : Decimal}

def Decimal.value (d : Decimal) : ℚ := d.digits * 10 ^ d.exponent

def Decimal.fraction (d : Decimal) : ℕ × ℕ :=
  match d.exponent with
  | .ofNat k => (d.digits * Nat.pow 10 k, 1)
  | .negSucc k => (d.digits, Nat.pow 10 (k + 1))

theorem Decimal.fraction_den_pos (d : Decimal) : (0 : ℚ) < d.fraction.2 := by
  unfold fraction
  split
  · norm_num
  · simp

theorem Decimal.fraction_ratio (d : Decimal) : (d.fraction.1 : ℚ) / d.fraction.2 = d.value := by
  obtain ⟨digits, k | k⟩ := d
  · simp [fraction, value]
  · simp [fraction, value, zpow_negSucc, div_eq_mul_inv]

variable {m : ℕ} {e : ℤ}

/-! ### The interval of a double -/

theorem scaled_den_eq (num num' den : ℕ) (shift : ℤ) :
    (scaled num den shift).2 = (scaled num' den shift).2 := by
  cases shift <;> rfl

theorem rounding_den_pos (m : ℕ) (e : ℤ) : (0 : ℚ) < (rounding m e).den := by
  exact_mod_cast scaled_den_pos Nat.one_pos 1 (e - 2)

theorem quarter_zpow (e : ℤ) : (2 : ℚ) ^ (e - 2) * 4 = 2 ^ e := by
  have h : (2 : ℚ) ^ (e - 2 + 2) = 2 ^ (e - 2) * 2 ^ (2 : ℤ) := two_zpow_add _ _
  rw [sub_add_cancel] at h
  rw [h]
  norm_num

/-- A number of quarters of the last place, as a quotient over the common denominator. -/
theorem rounding_ratio (m n : ℕ) (e : ℤ) :
    ((scaled n 1 (e - 2)).1 : ℚ) / (rounding m e).den = n * 2 ^ (e - 2) := by
  have hden : (rounding m e).den = (scaled n 1 (e - 2)).2 := scaled_den_eq 1 n 1 (e - 2)
  rw [hden, scaled_ratio, Nat.cast_one, div_one]

theorem rounding_value (m : ℕ) (e : ℤ) :
    ((rounding m e).value : ℚ) / (rounding m e).den = m * 2 ^ e := by
  calc ((rounding m e).value : ℚ) / (rounding m e).den
      = ((4 * m : ℕ) : ℚ) * 2 ^ (e - 2) := rounding_ratio m (4 * m) e
    _ = m * 2 ^ e := by rw [← quarter_zpow e]; push_cast; ring

theorem rounding_upper (m : ℕ) (e : ℤ) :
    ((rounding m e).upper : ℚ) / (rounding m e).den = (m + 1 / 2) * 2 ^ e := by
  calc ((rounding m e).upper : ℚ) / (rounding m e).den
      = ((4 * m + 2 : ℕ) : ℚ) * 2 ^ (e - 2) := rounding_ratio m (4 * m + 2) e
    _ = (m + 1 / 2) * 2 ^ e := by rw [← quarter_zpow e]; push_cast; ring

theorem rounding_lower (hm : 0 < m) (e : ℤ) :
    ((rounding m e).lower : ℚ) / (rounding m e).den = (m - gapBelow m e / 4) * 2 ^ e := by
  have hgap : gapBelow m e ≤ 4 * m := by
    unfold gapBelow
    split_ifs <;> omega
  have hlower : (rounding m e).lower = (scaled (4 * m - gapBelow m e) 1 (e - 2)).1 := by
    simp only [rounding, gapBelow, beq_iff_eq, Bool.and_eq_true, decide_eq_true_eq, Nat.pow_eq,
      gt_iff_lt]
  have h := rounding_ratio m (4 * m - gapBelow m e) e
  rw [hlower, h, ← quarter_zpow e, Nat.cast_sub hgap]
  push_cast
  ring

theorem covers_iff (hm : 0 < m) (d : Decimal) :
    (rounding m e).covers d = true ↔ Near m e d.value := by
  have hfraction : (rounding m e).covers d =
      if (rounding m e).closed then
        decide ((rounding m e).lower * d.fraction.2 ≤ d.fraction.1 * (rounding m e).den) &&
          decide (d.fraction.1 * (rounding m e).den ≤ (rounding m e).upper * d.fraction.2)
      else
        decide ((rounding m e).lower * d.fraction.2 < d.fraction.1 * (rounding m e).den) &&
          decide (d.fraction.1 * (rounding m e).den < (rounding m e).upper * d.fraction.2) := by
    obtain ⟨digits, k | k⟩ := d <;> rfl
  have hden := rounding_den_pos m e
  have hden' := d.fraction_den_pos
  -- products of natural numbers compare as quotients do
  have hle (a b c d : ℕ) (hb : (0 : ℚ) < b) (hd : (0 : ℚ) < d) :
      a * d ≤ c * b ↔ (a : ℚ) / b ≤ c / d := by
    rw [div_le_div_iff₀ hb hd]
    exact_mod_cast Iff.rfl
  have hlt (a b c d : ℕ) (hb : (0 : ℚ) < b) (hd : (0 : ℚ) < d) :
      a * d < c * b ↔ (a : ℚ) / b < c / d := by
    rw [div_lt_div_iff₀ hb hd]
    exact_mod_cast Iff.rfl
  rw [hfraction]
  by_cases heven : m % 2 = 0
  · have hclosed : (rounding m e).closed = true := by simp [rounding, heven]
    rw [hclosed, if_pos rfl, Bool.and_eq_true, decide_eq_true_eq, decide_eq_true_eq,
      hle _ _ _ _ hden hden', hle _ _ _ _ hden' hden, d.fraction_ratio, rounding_lower hm,
      rounding_upper]
    exact ⟨fun h => ⟨h.1, h.2, by omega⟩, fun h => ⟨h.lower, h.upper⟩⟩
  · have hclosed : (rounding m e).closed = false := by simp [rounding, heven]
    rw [hclosed, if_neg (by simp), Bool.and_eq_true, decide_eq_true_eq, decide_eq_true_eq,
      hlt _ _ _ _ hden hden', hlt _ _ _ _ hden' hden, d.fraction_ratio, rounding_lower hm,
      rounding_upper]
    exact ⟨fun h => ⟨h.1.le, h.2.le, fun _ => h⟩, fun h => h.strict (by omega)⟩

/-! ### The grid -/

theorem grid_bounds (m : ℕ) (e p : ℤ) :
    (((rounding m e).grid p).1 : ℚ) * 10 ^ p ≤ m * 2 ^ e ∧
      m * 2 ^ e < (((rounding m e).grid p).1 + 1 : ℚ) * 10 ^ p := by
  have hden := rounding_den_pos m e
  have hten : (0 : ℚ) < 10 ^ p := zpow_pos (by norm_num) _
  -- the digits are the quotient of the value and the width of the grid, rounded down
  obtain ⟨n, d, hd, hgrid, hratio⟩ : ∃ n d : ℕ, 0 < d ∧ ((rounding m e).grid p).1 = n / d ∧
      (n : ℚ) / d = m * 2 ^ e / 10 ^ p := by
    have hden' : 0 < (rounding m e).den := by exact_mod_cast hden
    rw [← rounding_value]
    obtain k | k := p
    · refine ⟨(rounding m e).value, (rounding m e).den * Nat.pow 10 k,
        Nat.mul_pos hden' (Nat.pow_pos (by decide)), rfl, ?_⟩
      simp only [Int.ofNat_eq_natCast, zpow_natCast, Nat.pow_eq]
      push_cast
      rw [div_mul_eq_div_div]
    · refine ⟨(rounding m e).value * Nat.pow 10 (k + 1), (rounding m e).den, hden', rfl, ?_⟩
      simp only [zpow_negSucc, Nat.pow_eq]
      push_cast
      rw [div_inv_eq_mul]
      ring
  have hlow : ((n / d : ℕ) : ℚ) ≤ n / d := not_lt.mp fun h =>
    absurd ((div_lt_iff_ratio hd).mpr h) (lt_irrefl _)
  have hhigh : (n : ℚ) / d < (n / d : ℕ) + 1 := by
    exact_mod_cast (div_lt_iff_ratio hd).mp (Nat.lt_succ_self (n / d))
  rw [hgrid]
  rw [hratio] at hlow hhigh
  rw [le_div_iff₀ hten] at hlow
  rw [div_lt_iff₀ hten] at hhigh
  exact ⟨hlow, hhigh⟩

theorem magnitude_le {fuel : ℕ} (h : (10 : ℚ) ^ (p - 1) ≤ m * 2 ^ e) :
    (10 : ℚ) ^ ((rounding m e).magnitude fuel p - 1) ≤ m * 2 ^ e := by
  induction fuel generalizing p with
  | zero => exact h
  | succ fuel ih =>
    unfold Rounding.magnitude
    split_ifs with hzero
    · exact h
    · apply ih
      have hpos : (0 : ℚ) < 10 ^ p := zpow_pos (by norm_num) _
      have hone : (1 : ℚ) ≤ ((rounding m e).grid p).1 := by
        have : ((rounding m e).grid p).1 ≠ 0 := by simpa using hzero
        exact_mod_cast Nat.one_le_iff_ne_zero.mpr this
      rw [add_sub_cancel_right]
      nlinarith [(grid_bounds m e p).1]

/-- A power of ten is at most a power of two when a logarithm that is a little too large says so. -/
theorem ten_zpow_le {a k : ℤ} (h : 0 ≤ a → 10 * a ≤ 3 * k) (h' : a < 0 → 28 * -k ≤ 93 * -a) :
    (10 : ℚ) ^ a ≤ 2 ^ k := by
  rcases le_or_gt 0 a with ha | ha
  · have hcube : ((10 : ℚ) ^ a) ^ 3 ≤ (2 ^ k) ^ 3 := by
      calc ((10 : ℚ) ^ a) ^ 3 = ((10 : ℚ) ^ (3 : ℤ)) ^ a := by
            rw [← zpow_natCast, ← zpow_mul, ← zpow_mul, mul_comm]
            rfl
        _ ≤ ((2 : ℚ) ^ (10 : ℤ)) ^ a := zpow_le_zpow_left₀ ha (by norm_num) (by norm_num)
        _ = 2 ^ (10 * a) := by rw [← zpow_mul]
        _ ≤ 2 ^ (3 * k) := two_zpow_le (h ha)
        _ = (2 ^ k) ^ 3 := by rw [← zpow_natCast, ← zpow_mul, mul_comm]; rfl
    exact le_of_pow_le_pow_left₀ (by decide) (by positivity) hcube
  · have hpower : ((2 : ℚ) ^ (-k)) ^ 93 ≤ (10 ^ (-a)) ^ 93 := by
      rcases le_or_gt k 0 with hk | hk
      · calc ((2 : ℚ) ^ (-k)) ^ 93 = ((2 : ℚ) ^ (93 : ℤ)) ^ (-k) := by
              rw [← zpow_natCast, ← zpow_mul, ← zpow_mul, mul_comm]
              rfl
          _ ≤ ((10 : ℚ) ^ (28 : ℤ)) ^ (-k) :=
              zpow_le_zpow_left₀ (by omega) (by norm_num) (by norm_num)
          _ = 10 ^ (28 * -k) := by rw [← zpow_mul]
          _ ≤ 10 ^ (93 * -a) := zpow_le_zpow_right₀ (by norm_num) (h' ha)
          _ = (10 ^ (-a)) ^ 93 := by rw [← zpow_natCast, ← zpow_mul, mul_comm]; rfl
      · have htwo : (2 : ℚ) ^ (-k) ≤ 1 := zpow_le_one_of_nonpos₀ (by norm_num) (by omega)
        have hten : (1 : ℚ) ≤ 10 ^ (-a) := one_le_zpow₀ (by norm_num) (by omega)
        exact pow_le_pow_left₀ (by positivity) (htwo.trans hten) 93
    have hinv := le_of_pow_le_pow_left₀ (by decide) (by positivity) hpower
    rw [zpow_neg, zpow_neg] at hinv
    exact (inv_le_inv₀ (zpow_pos (by norm_num) _) (zpow_pos (by norm_num) _)).mp hinv

theorem magnitudeBound_le (hform : InForm m e) (hm : 0 < m) :
    (10 : ℚ) ^ ((rounding m e).magnitudeBound - 1) ≤ m * 2 ^ e := by
  have hden := rounding_den_pos m e
  have hpos := two_zpow_pos e
  have hm' : (1 : ℚ) ≤ m := by exact_mod_cast hm
  have hvalue := rounding_value m e
  have hne : (rounding m e).value ≠ 0 := by
    intro h
    rw [h, Nat.cast_zero, zero_div] at hvalue
    nlinarith
  obtain ⟨hv₁, hv₂⟩ := log2_bounds hne
  obtain ⟨hd₁, hd₂⟩ := log2_bounds (show (rounding m e).den ≠ 0 by
    intro h
    rw [h, Nat.cast_zero] at hden
    exact lt_irrefl _ hden)
  unfold Rounding.magnitudeBound
  set a : ℤ := (Nat.log2 (rounding m e).value : ℤ)
  set b : ℤ := (Nat.log2 (rounding m e).den : ℤ)
  have ha := two_zpow_pos a
  have hb := two_zpow_pos b
  have hsub (k : ℤ) : (2 : ℚ) ^ (a - b + k) * 2 ^ b = 2 ^ a * 2 ^ k := by
    rw [← two_zpow_add, ← two_zpow_add]
    congr 1
    omega
  -- the numbers of bits give the value up to a factor of two on either side
  have hlow : (2 : ℚ) ^ (a - b - 1) ≤ m * 2 ^ e := by
    rw [← hvalue, le_div_iff₀ hden]
    have h := hsub (-1)
    rw [← sub_eq_add_neg] at h
    norm_num at h
    have hstep : (2 : ℚ) ^ (a - b - 1) * (rounding m e).den ≤ 2 ^ (a - b - 1) * (2 * 2 ^ b) := by
      gcongr
    linarith
  have hhigh : m * 2 ^ e < (2 : ℚ) ^ (a - b + 1) := by
    rw [← hvalue, div_lt_iff₀ hden]
    have h := hsub 1
    norm_num at h
    have hstep : (2 : ℚ) ^ (a - b + 1) * 2 ^ b ≤ 2 ^ (a - b + 1) * (rounding m e).den := by
      gcongr
    linarith
  have hbig : a - b - 1 < 1024 := by
    have : (2 : ℚ) ^ (a - b - 1) < 2 ^ (1024 : ℤ) := by
      calc (2 : ℚ) ^ (a - b - 1) ≤ m * 2 ^ e := hlow
        _ < 2 ^ (53 : ℤ) * 2 ^ e := by
            have : (m : ℚ) < 2 ^ (53 : ℤ) := by exact_mod_cast hform.mantissa
            gcongr
        _ = 2 ^ (53 + e) := (two_zpow_add _ _).symm
        _ ≤ 2 ^ (1024 : ℤ) := two_zpow_le (by have := hform.greatest; omega)
    exact (zpow_lt_zpow_iff_right₀ (by norm_num)).mp this
  have hsmall : -1074 < a - b + 1 := by
    have : (2 : ℚ) ^ (-1074 : ℤ) < 2 ^ (a - b + 1) := by
      calc (2 : ℚ) ^ (-1074 : ℤ) ≤ 2 ^ e := two_zpow_le hform.least
        _ ≤ m * 2 ^ e := by nlinarith
        _ < 2 ^ (a - b + 1) := hhigh
    exact (zpow_lt_zpow_iff_right₀ (by norm_num)).mp this
  refine le_trans (ten_zpow_le ?_ ?_) hlow
  · intro _
    omega
  · intro _
    omega

/-! ### Seventeen digits -/

theorem near_of_le {r : ℚ} (h : r ≤ m * 2 ^ e)
    (hclose : m * 2 ^ e - r < gapBelow m e / 4 * 2 ^ e) : Near m e r := by
  have hpos := two_zpow_pos e
  have hlower : (m - gapBelow m e / 4 : ℚ) * 2 ^ e < r := by linarith
  have hupper : r < (m + 1 / 2 : ℚ) * 2 ^ e := by linarith
  exact ⟨hlower.le, hupper.le, fun _ => ⟨hlower, hupper⟩⟩

theorem near_of_ge {r : ℚ} (h : m * 2 ^ e ≤ r) (hclose : r - m * 2 ^ e < 1 / 2 * 2 ^ e) :
    Near m e r := by
  have hpos := two_zpow_pos e
  have hgap : (0 : ℚ) < gapBelow m e := by
    unfold gapBelow
    split_ifs <;> norm_num
  have hlower : (m - gapBelow m e / 4 : ℚ) * 2 ^ e < r := by nlinarith
  have hupper : r < (m + 1 / 2 : ℚ) * 2 ^ e := by linarith
  exact ⟨hlower.le, hupper.le, fun _ => ⟨hlower, hupper⟩⟩

theorem half_grid_lt (hform : InForm m e) (hp : (10 : ℚ) ^ (p + 16) ≤ m * 2 ^ e) :
    (10 : ℚ) ^ p / 2 < gapBelow m e / 4 * 2 ^ e := by
  have hpos := two_zpow_pos e
  have hfine : (10 : ℚ) ^ p * 10 ^ 16 ≤ m * 2 ^ e := by
    have h : (10 : ℚ) ^ (p + 16) = 10 ^ p * 10 ^ (16 : ℤ) := zpow_add₀ (by norm_num) _ _
    rw [h] at hp
    exact_mod_cast hp
  unfold gapBelow
  split_ifs with h
  · obtain ⟨rfl, -⟩ := h
    push_cast at hfine
    norm_num at hfine ⊢
    linarith
  · have hmantissa : (m : ℚ) < 2 ^ 53 := by exact_mod_cast hform.mantissa
    have hless : (m : ℚ) * 2 ^ e < 2 ^ 53 * 2 ^ e := by gcongr
    norm_num at hfine hless ⊢
    linarith

theorem near_neighbour (hform : InForm m e) (hp : (10 : ℚ) ^ (p + 16) ≤ m * 2 ^ e) :
    Near m e (⟨((rounding m e).grid p).1, p⟩ : Decimal).value ∨
      Near m e (⟨((rounding m e).grid p).1 + 1, p⟩ : Decimal).value := by
  have hhalf := half_grid_lt hform hp
  obtain ⟨hlow, hhigh⟩ := grid_bounds m e p
  have hpos := two_zpow_pos e
  simp only [Decimal.value]
  push_cast
  set low : ℚ := (((rounding m e).grid p).1 : ℚ)
  rcases le_total (m * 2 ^ e - low * 10 ^ p) (10 ^ p / 2) with h | h
  · exact .inl (near_of_le hlow (by linarith))
  · refine .inr (near_of_ge hhigh.le ?_)
    have hgap : (gapBelow m e : ℚ) / 4 ≤ 1 / 2 := by linarith [gapBelow_le m e]
    have hwide := mul_le_mul_of_nonneg_right hgap hpos.le
    linarith

theorem near_shortestFrom (hform : InForm m e) (hm : 0 < m) (hp : (10 : ℚ) ^ (p - 1) ≤ m * 2 ^ e)
    {fuel n : ℕ} (hn : n ≤ 17) (hfuel : 17 < n + fuel) :
    Near m e ((rounding m e).shortestFrom p fuel n).value := by
  induction fuel generalizing n with
  | zero => omega
  | succ fuel ih =>
    unfold Rounding.shortestFrom
    dsimp only
    have hbelow := covers_iff hm (e := e) ⟨((rounding m e).grid (p - n)).1, p - n⟩
    have habove := covers_iff hm (e := e) ⟨((rounding m e).grid (p - n)).1 + 1, p - n⟩
    split
    · next hb ha =>
      split
      · exact hbelow.mp hb
      · exact habove.mp ha
      · split_ifs
        · exact hbelow.mp hb
        · exact habove.mp ha
    · next hb _ => exact hbelow.mp hb
    · next ha => exact habove.mp ha
    · next hb ha =>
      -- with seventeen digits, one of the two would have been covered
      have hfew : n ≠ 17 := by
        rintro rfl
        have hfine : (10 : ℚ) ^ (p - (17 : ℕ) + 16) ≤ m * 2 ^ e := by
          convert hp using 2
          push_cast
          omega
        rcases near_neighbour hform hfine with h | h
        · rw [hbelow.mpr h] at hb
          cases hb
        · rw [habove.mpr h] at ha
          cases ha
      exact ih (by omega) (by omega)

theorem Decimal.normalize_value (fuel : ℕ) (d : Decimal) : (d.normalize fuel).value = d.value := by
  induction fuel generalizing d with
  | zero => rfl
  | succ fuel ih =>
    unfold normalize
    split_ifs with h
    · rw [ih]
      have hten : d.digits % 10 = 0 := by simp_all
      obtain ⟨k, hk⟩ := Nat.dvd_of_mod_eq_zero hten
      simp only [value]
      rw [hk, Nat.mul_div_cancel_left k (by decide), zpow_add_one₀ (by norm_num)]
      push_cast
      ring
    · rfl

theorem near_shortest (hform : InForm m e) (hm : 0 < m) : Near m e (shortest m e).value := by
  unfold shortest
  dsimp only
  rw [Decimal.normalize_value]
  exact near_shortestFrom hform hm (magnitude_le (magnitudeBound_le hform hm)) (by decide)
    (by decide)

/-! ### Reading a decimal -/

theorem toDigits_bounds {n : ℕ} (hn : 0 < n) :
    (10 : ℚ) ^ ((Nat.toDigits 10 n).length - 1 : ℤ) ≤ n ∧
      (n : ℚ) < 10 ^ ((Nat.toDigits 10 n).length : ℤ) := by
  have hlength : 0 < (Nat.toDigits 10 n).length := List.length_pos_iff.mpr Nat.toDigits_ne_nil
  obtain ⟨k, hk⟩ : ∃ k, (Nat.toDigits 10 n).length = k + 1 := ⟨_, (Nat.succ_pred_eq_of_pos hlength).symm⟩
  rw [hk]
  push_cast
  rw [add_sub_cancel_right]
  constructor
  · rw [zpow_natCast]
    rcases Nat.eq_zero_or_pos k with rfl | hk₀
    · rw [pow_zero]
      exact_mod_cast hn
    · have : ¬n < 10 ^ k := by
        rw [← Nat.length_toDigits_le_iff (by decide) hk₀]
        omega
      exact_mod_cast Nat.not_lt.mp this
  · have : n < 10 ^ (k + 1) := by
      rw [← Nat.length_toDigits_le_iff (by decide) (Nat.succ_pos k)]
      omega
    exact_mod_cast this

theorem half_le_of_near (hm : 0 < m) (h : Near m e d.value) : 1 / 2 * 2 ^ e ≤ d.value := by
  have hpos := two_zpow_pos e
  have hm' : (1 : ℚ) ≤ m := by exact_mod_cast hm
  have hgap := gapBelow_le m e
  nlinarith [h.lower]

theorem digits_pos_of_near (hm : 0 < m) (h : Near m e d.value) : 0 < d.digits := by
  have hpos := two_zpow_pos e
  have hlower := half_le_of_near hm h
  apply Nat.pos_of_ne_zero
  intro hzero
  rw [Decimal.value, hzero, Nat.cast_zero, zero_mul] at hlower
  linarith

theorem ofDecimal_of_near (hform : InForm m e) (hm : 0 < m)
    (h : Near m e d.value) (negative : Bool) :
    ofDecimal negative d.digits d.exponent = finite negative m e := by
  have hlower := half_le_of_near hm h
  have hdigits := digits_pos_of_near hm h
  have hten (p : ℤ) : (0 : ℚ) < 10 ^ p := zpow_pos (by norm_num) _
  obtain ⟨hd₁, hd₂⟩ := toDigits_bounds hdigits
  set size : ℤ := ((Nat.toDigits 10 d.digits).length : ℤ) + d.exponent with hsize
  have hmost : ¬size > 400 := by
    intro hbig
    have hvalue : (10 : ℚ) ^ (400 : ℤ) ≤ d.value := by
      calc (10 : ℚ) ^ (400 : ℤ) ≤ 10 ^ (((Nat.toDigits 10 d.digits).length - 1 : ℤ) + d.exponent) :=
            zpow_le_zpow_right₀ (by norm_num) (by omega)
        _ = 10 ^ ((Nat.toDigits 10 d.digits).length - 1 : ℤ) * 10 ^ d.exponent :=
            zpow_add₀ (by norm_num) _ _
        _ ≤ d.value := mul_le_mul_of_nonneg_right hd₁ (hten _).le
    have htop : d.value < 2 ^ 53 * 2 ^ e := h.lt_top hform
    have hconst : (2 : ℚ) ^ 53 * 2 ^ e ≤ 10 ^ (400 : ℤ) := by
      calc (2 : ℚ) ^ 53 * 2 ^ e = 2 ^ (53 + e) := (two_zpow_add 53 e).symm
        _ ≤ 2 ^ (3 * 400 : ℤ) := two_zpow_le (by have := hform.greatest; omega)
        _ = (2 ^ (3 : ℤ)) ^ (400 : ℤ) := zpow_mul _ _ _
        _ ≤ 10 ^ (400 : ℤ) := zpow_le_zpow_left₀ (by decide) (by norm_num) (by norm_num)
    linarith
  have hleast : ¬size < -400 := by
    intro hsmall
    have hvalue : d.value < (10 : ℚ) ^ (-400 : ℤ) := by
      calc d.value < 10 ^ ((Nat.toDigits 10 d.digits).length : ℤ) * 10 ^ d.exponent :=
            mul_lt_mul_of_pos_right hd₂ (hten _)
        _ = 10 ^ size := (zpow_add₀ (by norm_num) _ _).symm
        _ ≤ 10 ^ (-400 : ℤ) := zpow_le_zpow_right₀ (by norm_num) (by omega)
    have hexp : (2 : ℚ) ^ (-1074 : ℤ) ≤ 2 ^ e := two_zpow_le hform.least
    have hconst : (10 : ℚ) ^ (-400 : ℤ) ≤ 2 ^ (-1075 : ℤ) :=
      ten_zpow_le (by decide) (by decide)
    have hhalf : (2 : ℚ) ^ (-1075 + 1 : ℤ) = 2 ^ (-1075 : ℤ) * 2 := zpow_add_one₀ (by norm_num) _
    rw [show (-1075 + 1 : ℤ) = -1074 by decide] at hhalf
    linarith
  have hratio : ofRatio negative d.fraction.1 d.fraction.2 = finite negative m e := by
    refine ofRatio_of_near (by exact_mod_cast d.fraction_den_pos) hform hm ?_ negative
    rwa [d.fraction_ratio]
  unfold ofDecimal
  rw [if_neg (by simpa using hdigits.ne')]
  dsimp only
  rw [← hsize, if_neg hmost, if_neg hleast, ← hratio]
  unfold Decimal.fraction
  cases d.exponent <;> rfl

theorem proper_ofDecimal (negative : Bool) (digits : ℕ) (exponent : ℤ) :
    (ofDecimal negative digits exponent).Proper := by
  unfold ofDecimal
  split_ifs
  · exact proper_zero negative
  · dsimp only
    split_ifs
    · trivial
    · exact proper_zero negative
    · cases exponent
      · exact proper_ofRatio negative _ Nat.one_pos
      · exact proper_ofRatio negative _ (Nat.pow_pos (by decide))

end RegexCorpus.Double
