import RegexCorpus.Text.Digit
import Mathlib.Tactic.IntervalCases

/-!
# Whole numbers and their texts

A whole number is read back from its decimal text, unless that has too many digits.
-/

namespace RegexCorpus.Text
open List

variable {c : Char}

theorem toNat_of_isDigit (h : c.isDigit = true) : 0x30 ≤ c.toNat ∧ c.toNat < 0x3a := by
  simp only [Char.isDigit, Bool.and_eq_true, decide_eq_true_eq, UInt32.le_iff_toNat_le] at h
  exact ⟨h.1, Nat.lt_succ_of_le h.2⟩

theorem digitValue?_of_isDigit (h : c.isDigit = true) :
    digitValue? c = some (c.toNat - '0'.toNat) := by
  have hrow : digitZeros.find? (fun z => z ≤ c.toNat && c.toNat < z + 10) = some 0x30 := by
    rw [digitZeros, find?_cons_of_pos]
    simpa using toNat_of_isDigit h
  rw [digitValue?, hrow]
  rfl

theorem isDigit_of_isDigit (h : c.isDigit = true) : isDigit c = true := by
  rw [isDigit, digitValue?_of_isDigit h]
  rfl

theorem isBlank_of_isDigit (h : c.isDigit = true) : isBlank c = false := by
  obtain ⟨hlow, hhigh⟩ := toNat_of_isDigit h
  rw [isBlank, CodeSet.contains]
  generalize c.toNat = n at hlow hhigh
  interval_cases n <;> rfl

theorem isMargin_of_isDigit (h : c.isDigit = true) : isMargin c = false := by
  rw [isMargin, isBlank_of_isDigit h, Bool.false_and]

theorem drop_margins {cs : List Char} (h : ∀ c ∈ cs, isMargin c = false) :
    ((cs.dropWhile isMargin).reverse.dropWhile isMargin).reverse = cs := by
  have hdrop {l : List Char} (hl : ∀ c ∈ l, isMargin c = false) : l.dropWhile isMargin = l := by
    cases l with
    | nil => rfl
    | cons c l => rw [dropWhile_cons_of_neg (by simp [hl c])]
  rw [hdrop h, hdrop (by simpa using h), reverse_reverse]

theorem readDigits?_of_isDigit {cs : List Char} (h : ∀ c ∈ cs, c.isDigit = true) (acc : Nat) :
    readDigits? acc true cs = some (Nat.ofDigitChars 10 cs acc) := by
  induction cs generalizing acc with
  | nil => rfl
  | cons c cs ih =>
    rw [forall_mem_cons] at h
    rw [readDigits?, digitValue?_of_isDigit h.1, Nat.ofDigitChars_cons]
    exact ih h.2 _

theorem readNat?_toDigits {n : Nat} (h : n < 10 ^ maxDigits) :
    readNat? (Nat.toDigits 10 n) = some n := by
  have hdigits : ∀ c ∈ Nat.toDigits 10 n, c.isDigit = true := fun c hc =>
    Nat.isDigit_of_mem_toDigits (by decide) (by decide) hc
  have hlength : (Nat.toDigits 10 n).length ≤ maxDigits :=
    (Nat.length_toDigits_le_iff (by decide) (by decide)).mpr h
  have hread :
      readDigits? 0 false (Nat.toDigits 10 n) = readDigits? 0 true (Nat.toDigits 10 n) := by
    cases hcs : Nat.toDigits 10 n with
    | nil => exact absurd hcs Nat.toDigits_ne_nil
    | cons c cs =>
      have hc := hdigits c (hcs ▸ mem_cons_self)
      rw [readDigits?, readDigits?, digitValue?_of_isDigit hc]
  rw [readNat?, if_pos (Nat.le_trans (length_filter_le _ _) hlength), hread,
    readDigits?_of_isDigit hdigits, Nat.ofDigitChars_ten_toDigits]

theorem readNat?_toDigits_of_long {n : Nat} (h : 10 ^ maxDigits ≤ n) :
    readNat? (Nat.toDigits 10 n) = none := by
  have hdigits : ∀ c ∈ Nat.toDigits 10 n, isDigit c = true := fun c hc =>
    isDigit_of_isDigit (Nat.isDigit_of_mem_toDigits (by decide) (by decide) hc)
  have hlength : ¬(Nat.toDigits 10 n).length ≤ maxDigits := by
    rw [Nat.length_toDigits_le_iff (by decide) (by decide)]
    exact Nat.not_lt.mpr h
  rw [readNat?, filter_eq_self.mpr hdigits, if_neg hlength]

/-- The number that digits of any script make from `n` on, the first one counting most. -/
def numberFrom (n : Nat) (ds : List Char) : Nat :=
  ds.foldl (fun n c => 10 * n + (digitValue? c).getD 0) n

theorem readDigits?_of_digits {ds : List Char} (h : ∀ c ∈ ds, isDigit c = true) (acc : Nat) :
    readDigits? acc true ds = some (numberFrom acc ds) := by
  induction ds generalizing acc with
  | nil => rfl
  | cons c ds ih =>
    rw [forall_mem_cons] at h
    obtain ⟨d, hd⟩ := Option.isSome_iff_exists.mp h.1
    rw [readDigits?, hd, numberFrom, foldl_cons, hd]
    exact ih h.2 _

/-- Digits are read as the number they make, unless there are too many of them. -/
theorem readNat?_of_digits {ds : List Char} (hne : ds ≠ []) (h : ∀ c ∈ ds, isDigit c = true) :
    readNat? ds = if ds.length ≤ maxDigits then some (numberFrom 0 ds) else none := by
  have hread : readDigits? 0 false ds = readDigits? 0 true ds := by
    cases ds with
    | nil => exact absurd rfl hne
    | cons c ds =>
      obtain ⟨d, hd⟩ := Option.isSome_iff_exists.mp (h c mem_cons_self)
      rw [readDigits?, readDigits?, hd]
  rw [readNat?, filter_eq_self.mpr h, hread, readDigits?_of_digits h]

theorem readInt?_ofInt_eq (n : Int) :
    readInt? (ofInt n) =
      (readNat? (Nat.toDigits 10 n.natAbs)).map fun m : Nat => if n < 0 then -(m : Int) else m := by
  have hdigits {m : Nat} : ∀ c ∈ Nat.toDigits 10 m, c.isDigit = true := fun c hc =>
    Nat.isDigit_of_mem_toDigits (by decide) (by decide) hc
  have hmargin {m : Nat} : ∀ c ∈ Nat.toDigits 10 m, isMargin c = false := fun c hc =>
    isMargin_of_isDigit (hdigits c hc)
  cases n with
  | ofNat n =>
    rw [readInt?, ofInt, ofNat, String.toList_ofList, drop_margins hmargin]
    split
    · next cs hcs => exact absurd (hdigits '-' (hcs ▸ mem_cons_self)) (by decide)
    · next cs hcs => exact absurd (hdigits '+' (hcs ▸ mem_cons_self)) (by decide)
    · rw [Int.natAbs_ofNat']
      cases readNat? (Nat.toDigits 10 n) <;> rfl
  | negSucc n =>
    have htext : (ofInt (.negSucc n)).toList = '-' :: Nat.toDigits 10 (n + 1) := by
      simp [ofInt, ofNat]
    rw [readInt?, htext, drop_margins (forall_mem_cons.mpr ⟨by decide, hmargin⟩)]
    simp only [Int.natAbs_negSucc, Nat.succ_eq_add_one, Int.negSucc_lt_zero, if_true]
    cases readNat? (Nat.toDigits 10 (n + 1)) <;> rfl

theorem readInt?_ofInt {n : Int} (h : n.natAbs < 10 ^ maxDigits) : readInt? (ofInt n) = some n := by
  rw [readInt?_ofInt_eq, readNat?_toDigits h, Option.map_some, Option.some.injEq]
  split_ifs <;> omega

theorem readInt?_ofInt_of_long {n : Int} (h : 10 ^ maxDigits ≤ n.natAbs) :
    readInt? (ofInt n) = none := by
  rw [readInt?_ofInt_eq, readNat?_toDigits_of_long h, Option.map_none]

end RegexCorpus.Text
