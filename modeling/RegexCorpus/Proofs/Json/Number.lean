import RegexCorpus.Proofs.Json.String
import RegexCorpus.Proofs.Json.Value

/-!
# Whole numbers in JSON

A whole number of not too many digits is read back from its decimal text, whatever follows, as long
as that does not go on with the number.
-/

namespace RegexCorpus.Json
open List

variable {n : Nat} {cs : List Char}

def EndsNumber (cs : List Char) : Prop :=
  ∀ c, cs.head? = some c → isDigit c = false ∧ c ≠ '.' ∧ c ≠ 'e' ∧ c ≠ 'E'

def EndsDigits (cs : List Char) : Prop := ∀ c, cs.head? = some c → isDigit c = false

/-! ### Decimal digits -/

theorem natOfDigits_toDigits (n : Nat) : natOfDigits (Nat.toDigits 10 n) = n :=
  Nat.ofDigitChars_ten_toDigits

theorem isDigit_of_mem_toDigits {c : Char} (h : c ∈ Nat.toDigits 10 n) : isDigit c = true := by
  have := Nat.isDigit_of_mem_toDigits (by decide) (by decide) h
  simpa [isDigit, Char.isDigit, Char.le_def] using this

theorem head?_toDigits (h : 0 < n) : (Nat.toDigits 10 n).head? ≠ some '0' := by
  induction n using Nat.strongRecOn with
  | _ n ih =>
    by_cases hn : n < 10
    · rw [Nat.toDigits_of_lt_base hn]
      interval_cases n <;> decide
    · rw [Nat.toDigits_of_base_le (by decide) (by omega),
        head?_append_of_ne_nil _ Nat.toDigits_ne_nil]
      exact ih (n / 10) (by omega) (by omega)

theorem EndsNumber.endsDigits (h : EndsNumber cs) : EndsDigits cs :=
  fun c hc => (h c hc).1

/-- Digits are taken up to the first character that is none. -/
theorem span_digits {ds : List Char} (hds : ∀ c ∈ ds, isDigit c = true) (h : EndsDigits cs) :
    (ds ++ cs).takeWhile isDigit = ds ∧ (ds ++ cs).dropWhile isDigit = cs := by
  have hrest : cs.takeWhile isDigit = [] ∧ cs.dropWhile isDigit = cs := by
    cases cs with
    | nil => simp
    | cons c cs => simp [h c rfl]
  rw [takeWhile_append_of_pos hds, dropWhile_append_of_pos hds, hrest.1, hrest.2,
    append_nil]
  exact ⟨rfl, rfl⟩

theorem readWhole?_digits {d : Char} {ds : List Char} (hzero : d ≠ '0')
    (hdigits : ∀ c ∈ d :: ds, isDigit c = true) (h : EndsDigits cs) :
    readWhole? (d :: ds ++ cs) = some (d :: ds, cs) := by
  rw [forall_mem_cons] at hdigits
  obtain ⟨htake, hdrop⟩ := span_digits hdigits.2 h
  simp only [cons_append, readWhole?, beq_iff_eq, hzero, if_false, hdigits.1, if_true, htake,
    hdrop]

theorem readWhole?_toDigits (n : Nat) (h : EndsDigits cs) :
    readWhole? (Nat.toDigits 10 n ++ cs) = some (Nat.toDigits 10 n, cs) := by
  obtain rfl | hn := Nat.eq_zero_or_pos n
  · rfl
  · cases hd : Nat.toDigits 10 n with
    | nil => exact absurd hd Nat.toDigits_ne_nil
    | cons d ds =>
      have hzero : d ≠ '0' := by
        intro he
        exact head?_toDigits hn (by rw [hd, he]; rfl)
      exact readWhole?_digits hzero (fun c hc => isDigit_of_mem_toDigits (hd ▸ hc)) h

theorem readFraction_of_ends (h : EndsNumber cs) : readFraction cs = ([], cs) := by
  cases cs with
  | nil => rfl
  | cons c cs =>
    rw [readFraction]
    intro cs' he
    exact (h c rfl).2.1 (cons.inj he).1

theorem readExponent?_of_ends (h : EndsNumber cs) : readExponent? cs = none := by
  cases cs with
  | nil => rfl
  | cons c cs => simp [readExponent?, (h c rfl).2.2]

theorem readNumber_toDigits (hn : n < 10 ^ digitLimit) (negative : Bool) (h : EndsNumber cs) :
    readNumber negative (Nat.toDigits 10 n ++ cs) =
      .ok (.int (if negative then -(n : Int) else n), cs) := by
  have hlength : ¬(Nat.toDigits 10 n).length > digitLimit :=
    not_lt.mpr ((Nat.length_toDigits_le_iff (by decide) (by decide)).mpr hn)
  rw [readNumber, readWhole?_toDigits n h.endsDigits]
  simp only [readFraction_of_ends h, readExponent?_of_ends h, isEmpty_nil, Bool.not_true,
    Bool.false_eq_true, if_false, hlength, natOfDigits_toDigits]

/-! ### Signed numbers -/

theorem writeAtom_natCast (n : Nat) : writeAtom (.int n) = Nat.toDigits 10 n := by
  simp [writeAtom, Text.ofInt, Text.ofNat]

theorem writeAtom_negSucc (n : Nat) :
    writeAtom (.int (.negSucc n)) = '-' :: Nat.toDigits 10 (n + 1) := by
  simp [writeAtom, Text.ofInt, Text.ofNat]

theorem readConstant?_digit {c : Char} (h : isDigit c = true) :
    readConstant? (c :: cs) = none ∧ readConstant? ('-' :: c :: cs) = none := by
  have hne (l : Char) (hl : isDigit l = false) : l ≠ c := by
    rintro rfl
    simp [h] at hl
  constructor
  · simp [readConstant?, constants, hne 'n' rfl, hne 't' rfl, hne 'f' rfl, hne 'N' rfl, hne 'I' rfl,
      hne '-' rfl]
  · simp [readConstant?, constants, hne 'I' rfl]

theorem readScalar_int {n : Int} (hn : n.natAbs < 10 ^ digitLimit) (h : EndsNumber cs) :
    readScalar (writeAtom (.int n) ++ cs) = .ok (.int n, cs) := by
  have hhead (m : Nat) : ∃ d ds, Nat.toDigits 10 m = d :: ds ∧ isDigit d = true := by
    cases hd : Nat.toDigits 10 m with
    | nil => exact absurd hd Nat.toDigits_ne_nil
    | cons d ds => exact ⟨d, ds, rfl, isDigit_of_mem_toDigits (hd ▸ mem_cons_self)⟩
  cases n with
  | ofNat n =>
    obtain ⟨d, ds, hd, hdigit⟩ := hhead n
    have hsign : ∀ rest, d :: (ds ++ cs) = '-' :: rest → False := by
      intro rest he
      rw [(cons.inj he).1] at hdigit
      simp [isDigit] at hdigit
    have hread := readNumber_toDigits (n := n) hn false h
    rw [Int.ofNat_eq_natCast, writeAtom_natCast]
    rw [hd, cons_append] at hread ⊢
    rw [readScalar, (readConstant?_digit hdigit).1]
    · exact hread
    · exact hsign
  | negSucc n =>
    obtain ⟨d, ds, hd, hdigit⟩ := hhead (n + 1)
    have hread := readNumber_toDigits (n := n + 1) hn true h
    rw [writeAtom_negSucc, cons_append]
    rw [hd, cons_append] at hread ⊢
    rw [readScalar, (readConstant?_digit hdigit).2]
    simpa [Int.negSucc_eq] using hread

end RegexCorpus.Json
