import RegexCorpus.Number.Double
import Mathlib.Algebra.Order.Field.Power
import Mathlib.Data.Rat.Floor

/-!
# Rounding to doubles

A quotient is rounded to a double in lowest form, and a quotient that lies between the midpoints
around a double is rounded to that double.
-/

namespace RegexCorpus.Double

variable {den n d k num : ℕ}

/-- A mantissa and an exponent in lowest form. -/
structure InForm (m : ℕ) (e : ℤ) : Prop where
  mantissa : m < 2 ^ 53
  least : -1074 ≤ e
  greatest : e ≤ 971
  lowest : 2 ^ 52 ≤ m ∨ e = -1074

/-- The double is in lowest form when it is finite. -/
def Proper : Double → Prop
  | finite _ m e => InForm m e
  | _ => True

/-- The gap below a double, in quarters of the gap above it: half as wide below a power of two. -/
def gapBelow (m : ℕ) (e : ℤ) : ℕ := if m = 2 ^ 52 ∧ -1074 < e then 1 else 2

/-- The number lies between the midpoints around `m · 2 ^ e`, which count when the mantissa is
even. -/
structure Near (m : ℕ) (e : ℤ) (r : ℚ) : Prop where
  lower : (m - gapBelow m e / 4) * 2 ^ e ≤ r
  upper : r ≤ (m + 1 / 2) * 2 ^ e
  strict : m % 2 = 1 → (m - gapBelow m e / 4) * 2 ^ e < r ∧ r < (m + 1 / 2 : ℚ) * 2 ^ e

/-! ### Scaling -/

theorem scaled_den_pos (hden : 0 < den) (num : ℕ) (shift : ℤ) : 0 < (scaled num den shift).2 := by
  cases shift with
  | ofNat k => exact hden
  | negSucc k => exact Nat.mul_pos hden (Nat.pow_pos (by decide))

theorem scaled_ratio (num den : ℕ) (shift : ℤ) :
    ((scaled num den shift).1 : ℚ) / (scaled num den shift).2 = num / den * 2 ^ shift := by
  cases shift with
  | ofNat k =>
    simp only [scaled, Int.ofNat_eq_natCast, zpow_natCast, Nat.pow_eq]
    push_cast
    ring
  | negSucc k =>
    simp only [scaled, zpow_negSucc, Nat.pow_eq]
    push_cast
    rw [div_mul_eq_div_div, div_eq_mul_inv (num / den : ℚ)]

theorem div_lt_iff_ratio (hd : 0 < d) : n / d < k ↔ (n : ℚ) / d < k := by
  have hd' : (0 : ℚ) < d := by exact_mod_cast hd
  rw [Nat.div_lt_iff_lt_mul hd, div_lt_iff₀ hd']
  exact_mod_cast Iff.rfl

/-! ### Rounding to a whole number -/

theorem roundDiv_eq {m : ℕ} (hd : 0 < d) (hlow : (m : ℚ) - 1 / 2 ≤ n / d)
    (hhigh : (n : ℚ) / d ≤ m + 1 / 2)
    (htie : m % 2 = 1 → (m : ℚ) - 1 / 2 < n / d ∧ (n : ℚ) / d < m + 1 / 2) : roundDiv n d = m := by
  have hd' : (0 : ℚ) < d := by exact_mod_cast hd
  -- all bounds as bounds on natural numbers
  have hlow' : 2 * m * d ≤ 2 * n + d := by
    rw [le_div_iff₀ hd'] at hlow
    have : (2 * m * d : ℚ) ≤ 2 * n + d := by linarith
    exact_mod_cast this
  have hhigh' : 2 * n ≤ 2 * m * d + d := by
    rw [div_le_iff₀ hd'] at hhigh
    have : (2 * n : ℚ) ≤ 2 * m * d + d := by linarith
    exact_mod_cast this
  have htie' : m % 2 = 1 → 2 * m * d < 2 * n + d ∧ 2 * n < 2 * m * d + d := by
    intro hodd
    obtain ⟨h₁, h₂⟩ := htie hodd
    rw [lt_div_iff₀ hd'] at h₁
    rw [div_lt_iff₀ hd'] at h₂
    constructor
    · have : (2 * m * d : ℚ) < 2 * n + d := by linarith
      exact_mod_cast this
    · have : (2 * n : ℚ) < 2 * m * d + d := by linarith
      exact_mod_cast this
  have hsplit := Nat.div_add_mod n d
  have hrest := Nat.mod_lt n hd
  simp only [roundDiv]
  generalize n / d = q at hsplit ⊢
  generalize n % d = r at hsplit hrest ⊢
  subst hsplit
  -- the rounded number is one of the two neighbours
  have hnext : m = q ∨ m = q + 1 := by
    rcases Nat.lt_trichotomy m q with h | h | h
    · have : (m + 1) * d ≤ q * d := Nat.mul_le_mul_right d h
      nlinarith
    · exact .inl h
    · rcases Nat.lt_or_ge (q + 1) m with h' | h'
      · have : (q + 2) * d ≤ m * d := Nat.mul_le_mul_right d h'
        nlinarith
      · exact .inr (by omega)
  simp only [Bool.or_eq_true, Bool.and_eq_true, decide_eq_true_eq, beq_iff_eq]
  rcases hnext with rfl | rfl
  · have hr : 2 * r ≤ d := by nlinarith
    rw [if_pos]
    rcases Nat.lt_or_ge (2 * r) d with h | h
    · exact .inl h
    · refine .inr ⟨by omega, ?_⟩
      by_contra hodd
      have := (htie' (by omega)).2
      nlinarith
  · have hr : d ≤ 2 * r := by nlinarith
    rw [if_neg]
    rintro (h | ⟨h, heven⟩)
    · omega
    · have := (htie' (by omega)).1
      nlinarith

theorem le_roundDiv (hd : 0 < d) (h : (k : ℚ) ≤ n / d) : k ≤ roundDiv n d := by
  have hk : ¬n / d < k := by rwa [div_lt_iff_ratio hd, not_lt]
  simp only [roundDiv]
  split_ifs <;> omega

theorem roundDiv_le (hd : 0 < d) (h : (n : ℚ) / d < k) : roundDiv n d ≤ k := by
  have hk : n / d < k := by rwa [div_lt_iff_ratio hd]
  simp only [roundDiv]
  split_ifs <;> omega

/-! ### The exponent of a quotient -/

/-- The exponent by which a quotient is scaled before it is rounded. -/
def exponentOf (num den : ℕ) : ℤ :=
  let guess : ℤ := (Nat.log2 num : ℤ) - (Nat.log2 den : ℤ) - 52
  max (if (scaled num den (-guess)).1 / (scaled num den (-guess)).2 < 2 ^ 52 then guess - 1
    else guess) (-1074)

/-- The mantissa of a quotient, which may have a bit too many. -/
def mantissaOf (num den : ℕ) : ℕ :=
  roundDiv (scaled num den (-exponentOf num den)).1 (scaled num den (-exponentOf num den)).2

/-- The double with this mantissa and exponent, unless the exponent is too large for it. -/
def capped (negative : Bool) (p : ℕ × ℤ) : Double :=
  if p.2 > 971 then infinite negative else finite negative p.1 p.2

theorem ofRatio_eq (hnum : num ≠ 0) (negative : Bool) (den : ℕ) :
    ofRatio negative num den =
      if mantissaOf num den = 2 ^ 53 then
        if 971 < exponentOf num den + 1 then infinite negative
        else finite negative (2 ^ 52) (exponentOf num den + 1)
      else if 971 < exponentOf num den then infinite negative
      else finite negative (mantissaOf num den) (exponentOf num den) := by
  have h₀ : (num == 0) = false := by simpa using hnum
  simp only [ofRatio, h₀, Bool.false_eq_true, if_false]
  change capped negative (if (mantissaOf num den == 2 ^ 53) = true then
    (2 ^ 52, exponentOf num den + 1) else (mantissaOf num den, exponentOf num den)) = _
  by_cases hm : mantissaOf num den = 2 ^ 53
  · rw [if_pos (by simpa using hm), if_pos hm]
    rfl
  · rw [if_neg (by simpa using hm), if_neg hm]
    rfl

theorem two_zpow_pos (e : ℤ) : (0 : ℚ) < 2 ^ e := zpow_pos (by norm_num) e

theorem two_zpow_le {a b : ℤ} (h : a ≤ b) : (2 : ℚ) ^ a ≤ 2 ^ b := zpow_le_zpow_right₀ (by norm_num) h

theorem two_zpow_add (a b : ℤ) : (2 : ℚ) ^ (a + b) = 2 ^ a * 2 ^ b := zpow_add₀ (by norm_num) a b

structure Fits (r : ℚ) (e : ℤ) : Prop where
  least : -1074 ≤ e
  upper : r < 2 ^ 53 * 2 ^ e
  lower : e = -1074 ∨ 2 ^ 52 * 2 ^ e ≤ r

theorem Fits.unique {r : ℚ} {e f : ℤ} (he : Fits r e) (hf : Fits r f) : e = f := by
  -- a smaller exponent leaves no room for the quotient
  have hle {a b : ℤ} (ha : Fits r a) (hb : Fits r b) : ¬a < b := by
    intro hab
    rcases hb.lower with h | h
    · have := ha.least
      omega
    · have hpow : (2 : ℚ) ^ 53 * 2 ^ a ≤ 2 ^ 52 * 2 ^ b := by
        have hstep : (2 : ℚ) ^ (a + 1) ≤ 2 ^ b := two_zpow_le (by omega)
        rw [two_zpow_add, zpow_one] at hstep
        linarith
      linarith [ha.upper]
  have h₁ := hle he hf
  have h₂ := hle hf he
  omega

theorem log2_bounds (hn : n ≠ 0) :
    (2 : ℚ) ^ (Nat.log2 n : ℤ) ≤ n ∧ (n : ℚ) < 2 * 2 ^ (Nat.log2 n : ℤ) := by
  rw [zpow_natCast]
  constructor
  · exact_mod_cast Nat.log2_self_le hn
  · have := Nat.lt_log2_self (n := n)
    rw [pow_succ] at this
    have : (n : ℚ) < 2 ^ Nat.log2 n * 2 := by exact_mod_cast this
    linarith

theorem fits_exponentOf (hnum : num ≠ 0) (hden : 0 < den) :
    Fits (num / den) (exponentOf num den) := by
  obtain ⟨hnum₁, hnum₂⟩ := log2_bounds hnum
  obtain ⟨hden₁, hden₂⟩ := log2_bounds hden.ne'
  have hden' : (0 : ℚ) < den := by exact_mod_cast hden
  have hposn := two_zpow_pos (Nat.log2 num : ℤ)
  have hposd := two_zpow_pos (Nat.log2 den : ℤ)
  set guess : ℤ := (Nat.log2 num : ℤ) - (Nat.log2 den : ℤ) - 52 with hguess
  have hpos := two_zpow_pos guess
  have hsum : (2 : ℚ) ^ (Nat.log2 num : ℤ) = 2 ^ 52 * 2 ^ guess * 2 ^ (Nat.log2 den : ℤ) := by
    rw [← zpow_natCast 2 52, ← two_zpow_add, ← two_zpow_add]
    congr 1
    push_cast
    omega
  -- the logarithms give the quotient up to a factor of two on either side
  have hupper : (num : ℚ) / den < 2 ^ 53 * 2 ^ guess := by
    rw [div_lt_iff₀ hden']
    calc (num : ℚ) < 2 * 2 ^ (Nat.log2 num : ℤ) := hnum₂
      _ = 2 ^ 53 * 2 ^ guess * 2 ^ (Nat.log2 den : ℤ) := by rw [hsum]; ring
      _ ≤ 2 ^ 53 * 2 ^ guess * den := by gcongr
  have hlower : 2 ^ 51 * 2 ^ guess ≤ (num : ℚ) / den := by
    rw [le_div_iff₀ hden']
    calc (2 : ℚ) ^ 51 * 2 ^ guess * den ≤ 2 ^ 51 * 2 ^ guess * (2 * 2 ^ (Nat.log2 den : ℤ)) := by
          gcongr
      _ = 2 ^ (Nat.log2 num : ℤ) := by rw [hsum]; ring
      _ ≤ num := hnum₁
  have htest : (scaled num den (-guess)).1 / (scaled num den (-guess)).2 < 2 ^ 52 ↔
      (num : ℚ) / den < 2 ^ 52 * 2 ^ guess := by
    rw [div_lt_iff_ratio (scaled_den_pos hden _ _), scaled_ratio, zpow_neg, ← div_eq_mul_inv,
      div_lt_iff₀ hpos]
    norm_num
  have hprev : (2 : ℚ) ^ (guess - 1) * 2 = 2 ^ guess := by
    rw [← zpow_add_one₀ (by norm_num), sub_add_cancel]
  -- the exponent before it is raised to the least one
  obtain ⟨e, he, hup, hlo⟩ : ∃ e : ℤ, exponentOf num den = max e (-1074) ∧
      (num : ℚ) / den < 2 ^ 53 * 2 ^ e ∧ 2 ^ 52 * 2 ^ e ≤ (num : ℚ) / den := by
    unfold exponentOf
    dsimp only
    rw [← hguess]
    by_cases h : (num : ℚ) / den < 2 ^ 52 * 2 ^ guess
    · rw [if_pos (htest.mpr h)]
      exact ⟨guess - 1, rfl, by linarith, by linarith⟩
    · rw [if_neg (htest.not.mpr h)]
      exact ⟨guess, rfl, hupper, not_lt.mp h⟩
  rw [he]
  refine ⟨le_max_right _ _, ?_, ?_⟩
  · have hmax : (2 : ℚ) ^ e ≤ 2 ^ max e (-1074) := two_zpow_le (le_max_left _ _)
    linarith
  · rcases le_total e (-1074) with h | h
    · exact .inl (max_eq_right h)
    · rw [max_eq_left h]
      exact .inr hlo

theorem exponentOf_eq (hnum : num ≠ 0) (hden : 0 < den) {e : ℤ} (he : Fits (num / den) e) :
    exponentOf num den = e :=
  (fits_exponentOf hnum hden).unique he

/-! ### Results in lowest form -/

theorem scaled_exponent_ratio (num den : ℕ) (e : ℤ) :
    ((scaled num den (-e)).1 : ℚ) / (scaled num den (-e)).2 = num / den / 2 ^ e := by
  rw [scaled_ratio, zpow_neg, ← div_eq_mul_inv]

/-- Every finite double that a quotient is rounded to is in lowest form. -/
theorem inForm_ofRatio {negative s : Bool} {m : ℕ} {e : ℤ} (hden : 0 < den)
    (h : ofRatio negative num den = finite s m e) : s = negative ∧ InForm m e := by
  by_cases hnum : num = 0
  · subst hnum
    obtain ⟨rfl, rfl, rfl⟩ := finite.inj h
    exact ⟨rfl, by norm_num, le_rfl, by norm_num, .inr rfl⟩
  · have hfits := fits_exponentOf hnum hden
    have hpos := two_zpow_pos (exponentOf num den)
    have hscaled := scaled_den_pos hden num (-exponentOf num den)
    have hle : mantissaOf num den ≤ 2 ^ 53 := by
      refine roundDiv_le hscaled ?_
      rw [scaled_exponent_ratio, div_lt_iff₀ hpos]
      exact_mod_cast hfits.upper
    have hge : 2 ^ 52 ≤ mantissaOf num den ∨ exponentOf num den = -1074 := by
      refine hfits.lower.symm.imp_left fun hlower => le_roundDiv hscaled ?_
      rw [scaled_exponent_ratio, le_div_iff₀ hpos]
      exact_mod_cast hlower
    have hleast := hfits.least
    rw [ofRatio_eq hnum] at h
    split_ifs at h with hm hbig hbig
    · obtain ⟨rfl, rfl, rfl⟩ := finite.inj h
      exact ⟨rfl, by norm_num, by omega, by omega, .inl le_rfl⟩
    · obtain ⟨rfl, rfl, rfl⟩ := finite.inj h
      exact ⟨rfl, by omega, hleast, by omega, hge⟩

theorem proper_zero (negative : Bool) : (zero negative).Proper :=
  ⟨by norm_num, le_rfl, by norm_num, .inr rfl⟩

theorem proper_ofRatio (negative : Bool) (num : ℕ) (hden : 0 < den) :
    (ofRatio negative num den).Proper := by
  cases h : ofRatio negative num den with
  | finite s m e => exact (inForm_ofRatio hden h).2
  | _ => trivial

/-! ### Rounding to the nearest double -/

section
variable {m : ℕ} {e : ℤ} {r : ℚ}

theorem gapBelow_le (m : ℕ) (e : ℤ) : (gapBelow m e : ℚ) ≤ 2 := by
  unfold gapBelow
  split_ifs <;> norm_num

/-- What lies near a double is below the next power of two. -/
theorem Near.lt_top (h : Near m e r) (hform : InForm m e) : r < 2 ^ 53 * 2 ^ e := by
  have hpos := two_zpow_pos e
  have hm := hform.mantissa
  rcases Nat.lt_or_ge m (2 ^ 53 - 1) with hlt | hge
  · have hm' : (m : ℚ) + 1 / 2 < 2 ^ 53 := by
      have : (m : ℚ) + 2 ≤ 2 ^ 53 := by exact_mod_cast (show m + 2 ≤ 2 ^ 53 by omega)
      linarith
    calc r ≤ (m + 1 / 2) * 2 ^ e := h.upper
      _ < 2 ^ 53 * 2 ^ e := by gcongr
  · -- the greatest mantissa is odd
    have hm' : m = 2 ^ 53 - 1 := by omega
    have hopen := (h.strict (by omega)).2
    subst hm'
    push_cast at hopen
    nlinarith

theorem Near.fits_below (h : Near m e r) (hform : InForm m e) (hlt : r < 2 ^ 52 * 2 ^ e)
    (he : -1074 < e) : m = 2 ^ 52 ∧ Fits r (e - 1) ∧ (2 ^ 53 - 1 / 2) * 2 ^ (e - 1) ≤ r := by
  have hpos := two_zpow_pos e
  have hprev : (2 : ℚ) ^ (e - 1) * 2 = 2 ^ e := by
    rw [← zpow_add_one₀ (by norm_num), sub_add_cancel]
  have hm : 2 ^ 52 ≤ m := hform.lowest.resolve_right (by omega)
  have hgap := gapBelow_le m e
  have hlower := h.lower
  have hmeq : m = 2 ^ 52 := by
    by_contra hne
    have hbig : (2 : ℚ) ^ 52 + 1 ≤ m := by exact_mod_cast (show 2 ^ 52 + 1 ≤ m by omega)
    nlinarith
  subst hmeq
  have hquarter : gapBelow (2 ^ 52) e = 1 := if_pos ⟨rfl, he⟩
  rw [hquarter] at hlower
  push_cast at hlower
  have hnear : (2 ^ 53 - 1 / 2) * 2 ^ (e - 1) ≤ r := by linarith
  refine ⟨rfl, ⟨by omega, by linarith, .inr ?_⟩, hnear⟩
  have : (0 : ℚ) < 2 ^ (e - 1) := zpow_pos (by norm_num) _
  linarith

theorem ofRatio_of_near {num den : ℕ} (hden : 0 < den) (hform : InForm m e) (hm : 0 < m)
    (h : Near m e (num / den)) (negative : Bool) : ofRatio negative num den = finite negative m e := by
  have hpos := two_zpow_pos e
  have hgap := gapBelow_le m e
  have hnum : num ≠ 0 := by
    rintro rfl
    have hm' : (1 : ℚ) ≤ m := by exact_mod_cast hm
    have := h.lower
    rw [Nat.cast_zero, zero_div] at this
    nlinarith
  rw [ofRatio_eq hnum]
  by_cases hlow : e = -1074 ∨ 2 ^ 52 * 2 ^ e ≤ (num : ℚ) / den
  · -- the quotient is scaled by the double's own exponent
    have he := exponentOf_eq hnum hden ⟨hform.least, h.lt_top hform, hlow⟩
    have hmantissa : mantissaOf num den = m := by
      unfold mantissaOf
      rw [he]
      refine roundDiv_eq (scaled_den_pos hden _ _) ?_ ?_ fun hodd => ?_
      · rw [scaled_exponent_ratio, le_div_iff₀ hpos]
        nlinarith [h.lower]
      · rw [scaled_exponent_ratio, div_le_iff₀ hpos]
        exact h.upper
      · obtain ⟨h₁, h₂⟩ := h.strict hodd
        rw [scaled_exponent_ratio, lt_div_iff₀ hpos, div_lt_iff₀ hpos]
        exact ⟨by nlinarith, h₂⟩
    have := hform.mantissa
    have := hform.greatest
    rw [hmantissa, he, if_neg (by omega), if_neg (by omega)]
  · -- the double is a power of two, and the quotient is scaled by the exponent below
    rw [not_or, not_le] at hlow
    obtain ⟨hne, hlt⟩ := hlow
    have hleast := hform.least
    obtain ⟨rfl, hfits, hnear⟩ := h.fits_below hform hlt (by omega)
    have he := exponentOf_eq hnum hden hfits
    have hpos' := two_zpow_pos (e - 1)
    have hmantissa : mantissaOf num den = 2 ^ 53 := by
      unfold mantissaOf
      rw [he]
      refine roundDiv_eq (scaled_den_pos hden _ _) ?_ ?_ fun hodd => ?_
      · rw [scaled_exponent_ratio, le_div_iff₀ hpos']
        exact_mod_cast hnear
      · rw [scaled_exponent_ratio, div_le_iff₀ hpos']
        have := hfits.upper
        push_cast
        linarith
      · norm_num at hodd
    have := hform.greatest
    rw [hmantissa, he, if_pos rfl, if_neg (by omega), sub_add_cancel]

end

/-! ### Rounding errors -/

theorem roundDiv_bounds {d : ℕ} (hd : 0 < d) (n : ℕ) :
    2 * (roundDiv n d * d) ≤ 2 * n + d ∧ 2 * n ≤ 2 * (roundDiv n d * d) + d := by
  have hsplit := Nat.div_add_mod n d
  have hrest := Nat.mod_lt n hd
  simp only [roundDiv, Bool.or_eq_true, Bool.and_eq_true, decide_eq_true_eq, beq_iff_eq]
  split_ifs
  · rw [Nat.mul_comm (n / d)]
    omega
  · rw [Nat.add_mul, Nat.mul_comm (n / d)]
    omega

theorem abs_roundDiv_sub_le {d : ℕ} (hd : 0 < d) (n : ℕ) :
    |(roundDiv n d : ℚ) - n / d| ≤ 1 / 2 := by
  have hd' : (0 : ℚ) < d := by exact_mod_cast hd
  obtain ⟨hupper, hlower⟩ := roundDiv_bounds hd n
  have hupper' : 2 * ((roundDiv n d : ℚ) * d) ≤ 2 * n + d := by exact_mod_cast hupper
  have hlower' : 2 * (n : ℚ) ≤ 2 * (roundDiv n d * d) + d := by exact_mod_cast hlower
  have hle : (n : ℚ) / d ≤ roundDiv n d + 1 / 2 := by
    rw [div_le_iff₀ hd']
    linarith
  have hge : (roundDiv n d : ℚ) - 1 / 2 ≤ n / d := by
    rw [le_div_iff₀ hd']
    linarith
  rw [abs_le]
  constructor <;> linarith

theorem abs_mantissaOf_sub_le (num : ℕ) (hden : 0 < den) :
    |(mantissaOf num den : ℚ) - num / den / 2 ^ exponentOf num den| ≤ 1 / 2 := by
  have h := abs_roundDiv_sub_le (scaled_den_pos hden num (-exponentOf num den))
    (scaled num den (-exponentOf num den)).1
  rwa [scaled_exponent_ratio] at h

theorem abs_mantissaOf_mul_sub_le (num : ℕ) (hden : 0 < den) :
    |(mantissaOf num den : ℚ) * 2 ^ exponentOf num den - num / den| ≤
      1 / 2 * 2 ^ exponentOf num den := by
  have hpos := two_zpow_pos (exponentOf num den)
  calc |(mantissaOf num den : ℚ) * 2 ^ exponentOf num den - num / den|
      = |(mantissaOf num den : ℚ) - num / den / 2 ^ exponentOf num den| *
          2 ^ exponentOf num den := by
        rw [← abs_of_pos hpos, ← abs_mul, abs_of_pos hpos, sub_mul, div_mul_cancel₀ _ hpos.ne']
    _ ≤ 1 / 2 * 2 ^ exponentOf num den :=
      mul_le_mul_of_nonneg_right (abs_mantissaOf_sub_le num hden) hpos.le

end RegexCorpus.Double
