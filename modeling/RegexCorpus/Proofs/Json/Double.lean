import RegexCorpus.Proofs.Json.Number
import RegexCorpus.Proofs.Number.Shortest

/-!
# Doubles in JSON

A double is read back from its text. A decimal is written in one of four shapes, with zeros before
or after its digits or with an exponent; each of them is read as a decimal of the same value, and
a decimal of that value rounds to the double.
-/

namespace RegexCorpus.Json
open List

variable {m : ℕ} {e : ℤ}

open Double

/-! ### Zeros around digits -/

theorem natOfDigits_append (xs ys : List Char) :
    natOfDigits (xs ++ ys) = 10 ^ ys.length * natOfDigits xs + natOfDigits ys := by
  change Nat.ofDigitChars 10 (xs ++ ys) 0 = _
  rw [Nat.ofDigitChars_append, Nat.ofDigitChars_eq_ofDigitChars_zero]
  rfl

theorem natOfDigits_zeros (k : ℕ) : natOfDigits (replicate k '0') = 0 := by
  induction k with
  | zero => rfl
  | succ k ih =>
    rw [replicate_succ', natOfDigits_append, ih]
    rfl

theorem isDigit_of_mem_zeros {k : ℕ} {c : Char} (h : c ∈ replicate k '0') :
    isDigit c = true := by
  rw [eq_of_mem_replicate h]
  rfl

/-! ### Numbers with a fraction or an exponent -/

section
variable {whole fraction ds cs : List Char} (negative : Bool)

theorem endsDigits_cons {c : Char} (h : isDigit c = false) (cs : List Char) :
    EndsDigits (c :: cs) := by
  intro d hd
  obtain rfl : c = d := by simpa using hd
  exact h

theorem readFraction_digits (hne : fraction ≠ []) (hdigits : ∀ c ∈ fraction, isDigit c = true)
    (h : EndsDigits cs) : readFraction ('.' :: (fraction ++ cs)) = (fraction, cs) := by
  obtain ⟨htake, hdrop⟩ := span_digits hdigits h
  rw [readFraction, htake, hdrop, if_neg (by simpa using hne)]

theorem readExponent?_digits (hne : ds ≠ []) (hdigits : ∀ c ∈ ds, isDigit c = true)
    (h : EndsDigits cs) (e : ℤ) (hn : natOfDigits ds = e.natAbs) :
    readExponent? ('e' :: (if e < 0 then '-' else '+') :: (ds ++ cs)) = some (e, cs) := by
  obtain ⟨htake, hdrop⟩ := span_digits hdigits h
  have hempty : ds.isEmpty = false := by simpa using hne
  split_ifs with hneg
  · simp [readExponent?, htake, hdrop, hempty, hn, abs_of_neg hneg]
  · simp [readExponent?, htake, hdrop, hempty, hn, abs_of_nonneg (not_lt.mp hneg)]

theorem readNumber_parts {rest rest' rest'' : List Char} {e : ℤ}
    (hwhole : readWhole? cs = some (whole, rest)) (hfraction : readFraction rest = (fraction, rest'))
    (hexponent : readExponent? rest' = some (e, rest'')) :
    readNumber negative cs =
      .ok (.double (ofDecimal negative (natOfDigits (whole ++ fraction)) (e - fraction.length)),
        rest'') := by
  rw [readNumber, hwhole]
  simp only [hfraction, hexponent]

theorem readNumber_fraction
    (hwhole : readWhole? (whole ++ '.' :: (fraction ++ cs)) = some (whole, '.' :: (fraction ++ cs)))
    (hne : fraction ≠ []) (hdigits : ∀ c ∈ fraction, isDigit c = true) (h : EndsNumber cs) :
    readNumber negative (whole ++ '.' :: (fraction ++ cs)) =
      .ok (.double (ofDecimal negative (natOfDigits (whole ++ fraction)) (-fraction.length)),
        cs) := by
  rw [readNumber, hwhole]
  simp only [readFraction_digits hne hdigits h.endsDigits, readExponent?_of_ends h]
  rw [if_pos (by simpa using hne)]

end

/-! ### The text of a decimal -/

section

variable {d : Decimal} {cs : List Char} (negative : Bool)
variable {k : ℕ}

theorem length_toDigits_pos (n : ℕ) : 0 < (Nat.toDigits 10 n).length :=
  length_pos_iff.mpr Nat.toDigits_ne_nil

theorem readNumber_small (d : Decimal)
    (hk : (k : ℤ) = -((Nat.toDigits 10 d.digits).length + d.exponent)) (h : EndsNumber cs) :
    readNumber negative
        ('0' :: '.' :: (replicate k '0' ++ Nat.toDigits 10 d.digits ++ cs)) =
      .ok (.double (ofDecimal negative d.digits d.exponent), cs) := by
  have hwhole : readWhole?
      (['0'] ++ '.' :: (replicate k '0' ++ Nat.toDigits 10 d.digits ++ cs)) =
        some (['0'], '.' :: (replicate k '0' ++ Nat.toDigits 10 d.digits ++ cs)) := rfl
  have hread := readNumber_fraction negative hwhole (by simp [Nat.toDigits_ne_nil])
    (by
      rw [forall_mem_append]
      exact ⟨fun c => isDigit_of_mem_zeros, fun c => isDigit_of_mem_toDigits⟩) h
  have hdigits : natOfDigits (['0'] ++ (replicate k '0' ++ Nat.toDigits 10 d.digits)) =
      d.digits := by
    rw [natOfDigits_append, natOfDigits_append, natOfDigits_zeros, natOfDigits_toDigits]
    simp [natOfDigits]
  have hexponent : (-((replicate k '0' ++ Nat.toDigits 10 d.digits).length : ℤ)) =
      d.exponent := by
    rw [length_append, length_replicate]
    push_cast
    omega
  rw [hdigits, hexponent] at hread
  exact hread

theorem readWhole?_take {n : ℕ} (hn : 0 < n) (hk : 0 < k) (j : ℕ) (h : EndsDigits cs) :
    readWhole? ((Nat.toDigits 10 n).take k ++ replicate j '0' ++ cs) =
      some ((Nat.toDigits 10 n).take k ++ replicate j '0', cs) := by
  have hdigits : ∀ c ∈ (Nat.toDigits 10 n).take k ++ replicate j '0', isDigit c = true := by
    rw [forall_mem_append]
    exact ⟨fun c hc => isDigit_of_mem_toDigits (mem_of_mem_take hc), fun c => isDigit_of_mem_zeros⟩
  obtain ⟨k, rfl⟩ : ∃ i, k = i + 1 := ⟨k - 1, by omega⟩
  have hhead := head?_toDigits hn
  cases hd : Nat.toDigits 10 n with
  | nil => exact absurd hd Nat.toDigits_ne_nil
  | cons c ds =>
    rw [hd, head?_cons, ne_eq, Option.some.injEq] at hhead
    rw [hd, take_succ_cons, cons_append] at hdigits
    rw [take_succ_cons, cons_append]
    exact readWhole?_digits hhead hdigits h

theorem readNumber_positional (hd : 0 < d.digits)
    (hk : (k : ℤ) = (Nat.toDigits 10 d.digits).length + d.exponent) (hpos : 0 < k)
    (h : EndsNumber cs) :
    ∃ d' : Decimal, d'.value = d.value ∧
      readNumber negative
          ((Nat.toDigits 10 d.digits).take k ++
              replicate (k - (Nat.toDigits 10 d.digits).length) '0' ++
            '.' :: ((if ((Nat.toDigits 10 d.digits).drop k).isEmpty then ['0']
              else (Nat.toDigits 10 d.digits).drop k) ++ cs)) =
        .ok (.double (ofDecimal negative d'.digits d'.exponent), cs) := by
  set ds := Nat.toDigits 10 d.digits with hds
  have hwhole (cs : List Char) := readWhole?_take hd hpos (k - ds.length)
    (endsDigits_cons (c := '.') rfl cs)
  by_cases hlength : k < ds.length
  · -- some digits are left for the fraction
    have hdrop : ds.drop k ≠ [] := by simpa using hlength
    have hzeros : k - ds.length = 0 := by omega
    refine ⟨d, rfl, ?_⟩
    rw [if_neg (by simpa using hdrop)]
    rw [readNumber_fraction negative (hwhole _) hdrop
      (fun c hc => isDigit_of_mem_toDigits (mem_of_mem_drop hc)) h]
    rw [hzeros, replicate_zero, append_nil, take_append_drop, hds,
      natOfDigits_toDigits, ← hds, length_drop]
    congr 4
    omega
  · have hdrop : ds.drop k = [] := drop_eq_nil_of_le (by omega)
    refine ⟨⟨d.digits * 10 ^ (k - ds.length + 1), -1⟩, ?_, ?_⟩
    · have hexponent : d.exponent = (k - ds.length : ℕ) := by omega
      rw [Decimal.value, Decimal.value, hexponent, zpow_natCast]
      push_cast
      rw [pow_succ]
      norm_num
      ring
    · rw [hdrop, isEmpty_nil, if_pos rfl]
      rw [readNumber_fraction negative (hwhole _) (by simp) (by simp [isDigit]) h]
      rw [take_of_length_le (not_lt.mp hlength), natOfDigits_append, natOfDigits_append,
        natOfDigits_zeros, hds, natOfDigits_toDigits, ← hds, length_replicate]
      have hzero : natOfDigits ['0'] = 0 := rfl
      rw [hzero]
      congr 4
      simp only [length_singleton]
      ring

theorem readNumber_exponent (hd : 0 < d.digits) {c : Char} {rest zeros : List Char} {e : ℤ}
    (hdigits : Nat.toDigits 10 d.digits = c :: rest) (he : e = rest.length + d.exponent)
    {j : ℕ} (hzeros : zeros = replicate j '0') (h : EndsNumber cs) :
    readNumber negative
        ((if rest.isEmpty then [c] else c :: '.' :: rest) ++
          'e' :: (if e < 0 then '-' else '+') :: (zeros ++ Nat.toDigits 10 e.natAbs ++ cs)) =
      .ok (.double (ofDecimal negative d.digits d.exponent), cs) := by
  have hall : ∀ x ∈ c :: rest, isDigit x = true := fun x hx =>
    isDigit_of_mem_toDigits (hdigits ▸ hx)
  have hzero : c ≠ '0' := by
    intro hc
    exact head?_toDigits hd (by rw [hdigits, hc]; rfl)
  have hne : zeros ++ Nat.toDigits 10 e.natAbs ≠ [] := by simp [Nat.toDigits_ne_nil]
  have hexponent := readExponent?_digits hne
    (by
      rw [forall_mem_append, hzeros]
      exact ⟨fun x => isDigit_of_mem_zeros, fun x => isDigit_of_mem_toDigits⟩)
    h.endsDigits e
    (by rw [natOfDigits_append, hzeros, natOfDigits_zeros, natOfDigits_toDigits]; omega)
  have hvalue : natOfDigits (c :: rest) = d.digits := by rw [← hdigits, natOfDigits_toDigits]
  have hends : EndsDigits
      ('e' :: (if e < 0 then '-' else '+') :: (zeros ++ Nat.toDigits 10 e.natAbs ++ cs)) :=
    endsDigits_cons rfl _
  cases rest with
  | nil =>
    have hread := readNumber_parts negative (readWhole?_digits hzero hall hends) rfl hexponent
    rw [append_nil, hvalue, length_nil, Nat.cast_zero, sub_zero] at hread
    rw [length_nil, Nat.cast_zero, zero_add] at he
    rw [isEmpty_nil, if_pos rfl, hread, he]
  | cons x xs =>
    have hfirst : ∀ y ∈ [c], isDigit y = true := by simpa using hall c (by simp)
    have hwhole := readWhole?_digits hzero hfirst
      (endsDigits_cons (c := '.') rfl (x :: xs ++ 'e' :: (if e < 0 then '-' else '+') ::
        (zeros ++ Nat.toDigits 10 e.natAbs ++ cs)))
    have hfraction := readFraction_digits (cons_ne_nil x xs)
      (fun y hy => hall y (mem_cons_of_mem _ hy)) hends
    have hread := readNumber_parts negative hwhole hfraction hexponent
    have hshift : e - (x :: xs).length = d.exponent := by omega
    rw [hshift, show [c] ++ x :: xs = c :: x :: xs from rfl, hvalue] at hread
    exact hread

theorem readNumber_render (f : Format) (hd : 0 < d.digits) (h : EndsNumber cs) :
    ∃ d' : Decimal, d'.value = d.value ∧
      readNumber negative ((d.render f).toList ++ cs) =
        .ok (.double (ofDecimal negative d'.digits d'.exponent), cs) := by
  have hlength := length_toDigits_pos d.digits
  rw [Decimal.render]
  split_ifs with hrange hsmall
  · refine ⟨d, rfl, ?_⟩
    rw [← readNumber_small negative d (k := (-((Nat.toDigits 10 d.digits).length +
      d.exponent)).toNat) (by omega) h]
    simp
  · obtain ⟨d', hvalue, hread⟩ := readNumber_positional negative hd
      (k := ((Nat.toDigits 10 d.digits).length + d.exponent).toNat) (by omega) (by omega) h
    refine ⟨d', hvalue, ?_⟩
    rw [← hread]
    dsimp only
    split_ifs <;> simp
  · refine ⟨d, rfl, ?_⟩
    cases hdigits : Nat.toDigits 10 d.digits with
    | nil => exact absurd hdigits Nat.toDigits_ne_nil
    | cons c rest =>
      have hread := readNumber_exponent negative hd hdigits rfl
        (j := f.exponentWidth - (Text.ofNat ((rest.length : ℤ) + d.exponent).natAbs).length) rfl h
      rw [← hread]
      have hpoint : (((c :: rest).length : ℤ) + d.exponent - 1) = rest.length + d.exponent := by
        rw [length_cons]
        push_cast
        omega
      simp only [hpoint]
      cases rest with
      | nil =>
        rw [isEmpty_nil, if_pos rfl]
        split_ifs <;> simp [Text.ofNat]
      | cons x xs =>
        rw [isEmpty_cons, if_neg Bool.false_ne_true]
        split_ifs <;> simp [Text.ofNat]

end

/-! ### Doubles -/

theorem readNumber_shortest (hform : InForm m e) (hm : 0 < m) (negative : Bool) {cs : List Char}
    (h : EndsNumber cs) :
    readNumber negative (((shortest m e).render format).toList ++ cs) =
      .ok (.double (finite negative m e), cs) := by
  have hnear := near_shortest hform hm
  have hdigits : 0 < (shortest m e).digits := digits_pos_of_near hm hnear
  obtain ⟨d', hvalue, hread⟩ := readNumber_render negative format hdigits h
  rw [hread, ofDecimal_of_near hform hm (hvalue ▸ hnear)]

theorem begins_of_readNumber {negative : Bool} {cs : List Char} {r : Value × List Char}
    (h : readNumber negative cs = .ok r) : ∃ c ds, cs = c :: ds ∧ isDigit c = true := by
  cases cs with
  | nil => simp [readNumber, readWhole?] at h
  | cons c ds =>
    refine ⟨c, ds, rfl, ?_⟩
    by_contra hc
    have hzero : c ≠ '0' := by
      rintro rfl
      exact hc rfl
    simp [readNumber, readWhole?, hzero, hc] at h

/-- The text of a finite double without its sign. -/
def magnitudeText (m : ℕ) (e : ℤ) : List Char :=
  (if m == 0 then "0.0" else (shortest m e).render format).toList

theorem writeAtom_finite (s : Bool) (m : ℕ) (e : ℤ) :
    writeAtom (.double (finite s m e)) = (if s then ['-'] else []) ++ magnitudeText m e := by
  cases s <;> simp [writeAtom, writeDouble, renderWith, magnitudeText]

theorem readNumber_magnitudeText (hform : InForm m e) (negative : Bool) {cs : List Char}
    (h : EndsNumber cs) :
    readNumber negative (magnitudeText m e ++ cs) = .ok (.double (finite negative m e), cs) := by
  obtain rfl | hm := Nat.eq_zero_or_pos m
  · obtain rfl : e = -1074 := hform.lowest.resolve_left (by norm_num)
    have hwhole : readWhole? (['0'] ++ '.' :: (['0'] ++ cs)) =
        some (['0'], '.' :: (['0'] ++ cs)) := rfl
    exact readNumber_fraction negative hwhole (by simp) (by simp [isDigit]) h
  · rw [magnitudeText, if_neg (by simpa using hm.ne')]
    exact readNumber_shortest hform hm negative h

/-- A finite double begins with a digit, after its sign. -/
theorem magnitudeText_begins (hform : InForm m e) :
    ∃ c cs, magnitudeText m e = c :: cs ∧ isDigit c = true := by
  have hends : EndsNumber [] := by simp [EndsNumber]
  have hread := readNumber_magnitudeText hform false hends
  rw [append_nil] at hread
  exact begins_of_readNumber hread

theorem readScalar_double {x : Double} (hx : x.Proper) {cs : List Char} (h : EndsNumber cs) :
    readScalar (writeAtom (.double x) ++ cs) = .ok (.double x, cs) := by
  cases x with
  | nan => rfl
  | infinite s => cases s <;> rfl
  | finite s m e =>
    obtain ⟨c, ds, htext, hdigit⟩ := magnitudeText_begins hx
    have hread := readNumber_magnitudeText hx s h
    rw [writeAtom_finite]
    rw [htext, cons_append] at hread
    cases s with
    | false =>
      have hsign : ∀ rest, c :: (ds ++ cs) = '-' :: rest → False := by
        intro rest he
        rw [(cons.inj he).1] at hdigit
        simp [isDigit] at hdigit
      rw [if_neg (by simp), nil_append, htext, cons_append, readScalar,
        (readConstant?_digit hdigit).1]
      · exact hread
      · exact hsign
    | true =>
      rw [if_pos rfl, htext, singleton_append, cons_append, cons_append, readScalar,
        (readConstant?_digit hdigit).2]
      exact hread

end RegexCorpus.Json
