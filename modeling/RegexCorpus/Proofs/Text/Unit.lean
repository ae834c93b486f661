import Mathlib.Tactic.SplitIfs
import RegexCorpus.Text.Unit

/-!
# Code units stand for their characters

Joining the halves of pairs undoes cutting characters into code units, for every text. What has to
be seen is that no pair arises by accident: a high half by itself is never followed by a low one.
-/

namespace RegexCorpus.Text
open List

variable {c : Char} {n : Nat}

theorem toNat_range (c : Char) : c.toNat < 0xd800 ∨ 0xdfff < c.toNat ∧ c.toNat < 0x110000 := by
  have h := c.valid
  simpa [UInt32.isValidChar, Nat.isValidChar] using h

theorem half?_eq_some : half? c = some n ↔ c.toNat = 0x100000 + n ∧ 0xd800 ≤ n ∧ n < 0xe000 := by
  simp only [half?, Bool.and_eq_true, decide_eq_true_eq]
  split_ifs with h
  · simp only [Option.some.injEq]
    omega
  · simp only [false_iff]
    omega

theorem isHighHalf_iff : isHighHalf n = true ↔ 0xd800 ≤ n ∧ n < 0xdc00 := by
  simp [isHighHalf]

theorem isLowHalf_iff : isLowHalf n = true ↔ 0xdc00 ≤ n ∧ n < 0xe000 := by
  simp [isLowHalf]

/-! ### Single units and pairs -/

theorem ofUnit_half (h : half? c = some n) : ofUnit n = c := by
  obtain ⟨hc, hlo, hhi⟩ := half?_eq_some.mp h
  have hn : (isHighHalf n || isLowHalf n) = true := by
    rw [Bool.or_eq_true, isHighHalf_iff, isLowHalf_iff]
    omega
  rw [ofUnit, if_pos hn, ← hc, Char.ofNat_toNat]

theorem ofUnit_toNat (h : c.toNat < 0x10000) : ofUnit c.toNat = c := by
  have hn : ¬(isHighHalf c.toNat || isLowHalf c.toNat) = true := by
    rw [Bool.or_eq_true, isHighHalf_iff, isLowHalf_iff]
    have := toNat_range c
    omega
  rw [ofUnit, if_neg hn, Char.ofNat_toNat]

theorem ofUnits_cons {m : Nat} {us : List Nat}
    (h : isHighHalf m = true → ∀ n, us.head? = some n → isLowHalf n = false) :
    ofUnits (m :: us) = ofUnit m :: ofUnits us := by
  cases us with
  | nil => rfl
  | cons n us =>
    have hpair : ¬(isHighHalf m && isLowHalf n) = true := by
      intro hp
      rw [Bool.and_eq_true] at hp
      have hn := h hp.1 n rfl
      simp [hp.2] at hn
    rw [ofUnits, if_neg hpair]

theorem ofUnits_halves (h : 0x10000 ≤ c.toNat) (us : List Nat) :
    ofUnits (halves c ++ us) = c :: ofUnits us := by
  have hc := toNat_range c
  have hpair : (isHighHalf (0xd800 + (c.toNat - 0x10000) / 0x400) &&
      isLowHalf (0xdc00 + (c.toNat - 0x10000) % 0x400)) = true := by
    rw [Bool.and_eq_true, isHighHalf_iff, isLowHalf_iff]
    omega
  have hjoin : 0x10000 + (0xd800 + (c.toNat - 0x10000) / 0x400 - 0xd800) * 0x400 +
      (0xdc00 + (c.toNat - 0x10000) % 0x400 - 0xdc00) = c.toNat := by
    omega
  simp only [halves, cons_append, nil_append]
  rw [ofUnits, if_pos hpair, hjoin, Char.ofNat_toNat]

/-! ### Texts -/

theorem isLowHalf_head_units {cs : List Char} (h : startsLow cs = false)
    (hn : (units cs).head? = some n) : isLowHalf n = false := by
  cases cs with
  | nil => simp [units] at hn
  | cons c cs =>
    have hc := toNat_range c
    rw [Bool.eq_false_iff, ne_eq, isLowHalf_iff]
    rw [units] at hn
    cases hh : half? c with
    | some m =>
      have hm : ¬isLowHalf m = true := by simpa [startsLow, hh] using h
      have := half?_eq_some.mp hh
      rw [isLowHalf_iff] at hm
      simp only [hh] at hn
      split_ifs at hn <;> simp [halves] at hn <;> omega
    | none =>
      simp only [hh] at hn
      split_ifs at hn <;> simp [halves] at hn <;> omega

theorem ofUnits_units (cs : List Char) : ofUnits (units cs) = cs := by
  induction cs with
  | nil => rfl
  | cons c cs ih =>
    rw [units]
    cases hh : half? c with
    | some n =>
      have hc := half?_eq_some.mp hh
      by_cases hp : (isHighHalf n && startsLow cs) = true
      · simp only [hp, if_true]
        rw [ofUnits_halves (by omega), ih]
      · have hlone : isHighHalf n = true →
            ∀ m, (units cs).head? = some m → isLowHalf m = false := by
          intro hn m hm
          have hlow : startsLow cs = false := by simpa [hn] using hp
          exact isLowHalf_head_units hlow hm
        simp only [hp, if_false, Bool.false_eq_true, cons_append, nil_append]
        rw [ofUnits_cons hlone, ofUnit_half hh, ih]
    | none =>
      by_cases hb : c.toNat < 0x10000
      · have hlone : isHighHalf c.toNat = true →
            ∀ m, (units cs).head? = some m → isLowHalf m = false := by
          intro hn
          have := toNat_range c
          rw [isHighHalf_iff] at hn
          omega
        simp only [hb, if_true, cons_append, nil_append]
        rw [ofUnits_cons hlone, ofUnit_toNat hb, ih]
      · simp only [hb, if_false]
        rw [ofUnits_halves (by omega), ih]

theorem units_lt {cs : List Char} (h : n ∈ units cs) : n < 0x10000 := by
  induction cs with
  | nil => simp [units] at h
  | cons c cs ih =>
    have hc := toNat_range c
    rw [units, mem_append] at h
    obtain h | h := h
    · cases hh : half? c with
      | some m =>
        have := half?_eq_some.mp hh
        simp only [hh] at h
        split_ifs at h <;> simp [halves] at h <;> omega
      | none =>
        simp only [hh] at h
        split_ifs at h <;> simp [halves] at h <;> omega
    · exact ih h

end RegexCorpus.Text
