import RegexCorpus.Number.Shortest
import Mathlib.Data.Nat.Digits.Lemmas

/-!
# The characters of numbers

Numbers are written with digits and a few marks. What holds of these holds of every character of a
number.
-/

namespace RegexCorpus
open List

/-- The property holds of digits and of the marks in numbers. -/
structure OfNumbers (P : Char → Prop) : Prop where
  digit : ∀ c, c.isDigit = true → P c
  point : P '.'
  exponent : P 'e'
  plus : P '+'
  minus : P '-'

namespace OfNumbers

theorem forall_toList_append {P : Char → Prop} {s t : String} :
    (∀ c ∈ (s ++ t).toList, P c) ↔ (∀ c ∈ s.toList, P c) ∧ ∀ c ∈ t.toList, P c := by
  rw [String.toList_append, forall_mem_append]

variable {P : Char → Prop} (hP : OfNumbers P)
include hP

theorem toDigits (n : ℕ) : ∀ c ∈ Nat.toDigits 10 n, P c := fun c hc =>
  hP.digit c (Nat.isDigit_of_mem_toDigits (by decide) (by decide) hc)

theorem ofNat (n : ℕ) : ∀ c ∈ (Text.ofNat n).toList, P c := by
  rw [Text.ofNat, String.toList_ofList]
  exact hP.toDigits n

theorem ofInt (n : ℤ) : ∀ c ∈ (Text.ofInt n).toList, P c := by
  cases n with
  | ofNat n => exact hP.ofNat n
  | negSucc n =>
    rw [Text.ofInt, forall_toList_append]
    exact ⟨by simpa using hP.minus, hP.ofNat _⟩

theorem zeros (k : ℕ) : ∀ c ∈ replicate k '0', P c := by
  intro c hc
  rw [eq_of_mem_replicate hc]
  exact hP.digit _ (by decide)

theorem renderDecimal (f : Double.Format) (d : Double.Decimal) :
    ∀ c ∈ (d.render f).toList, P c := by
  have hdigits := hP.toDigits d.digits
  have hzero : P '0' := hP.digit _ (by decide)
  rw [Double.Decimal.render]
  split_ifs
  · -- only zeros stand before the digits
    simp only [forall_toList_append, String.toList_ofList, forall_mem_append]
    exact ⟨by simp [hzero, hP.point], hP.zeros _, hdigits⟩
  · -- the point stands among the digits, or zeros fill up to it
    simp only [forall_toList_append, String.toList_ofList, forall_mem_append]
    refine ⟨⟨⟨fun c hc => hdigits c (mem_of_mem_take hc), hP.zeros _⟩,
      by simpa using hP.point⟩, ?_⟩
    split_ifs
    · simpa using hzero
    · rw [String.toList_ofList]
      exact fun c hc => hdigits c (mem_of_mem_drop hc)
  · -- there is an exponent
    simp only [forall_toList_append, String.toList_ofList]
    refine ⟨⟨⟨⟨?_, by simpa using hP.exponent⟩, ?_⟩, hP.zeros _⟩, hP.ofNat _⟩
    · split
      · simp
      · next c hc =>
        rw [hc] at hdigits
        simpa using hdigits
      · next c rest _ hc =>
        rw [hc, forall_mem_cons] at hdigits
        rw [String.toList_ofList, forall_mem_cons, forall_mem_cons]
        exact ⟨hdigits.1, hP.point, hdigits.2⟩
    · split_ifs
      · simpa using hP.minus
      · simpa using hP.plus

theorem renderWith {nanName infinityName : String} (hnan : ∀ c ∈ nanName.toList, P c)
    (hinfinity : ∀ c ∈ infinityName.toList, P c) (x : Double) :
    ∀ c ∈ (x.renderWith nanName infinityName).toList, P c := by
  have hsign (s : Bool) : ∀ c ∈ (if s then "-" else "").toList, P c := by
    cases s
    · simp
    · simpa using hP.minus
  cases x with
  | nan => exact hnan
  | infinite s =>
    rw [Double.renderWith, forall_toList_append]
    exact ⟨hsign s, hinfinity⟩
  | finite s m e =>
    rw [Double.renderWith, forall_toList_append]
    refine ⟨hsign s, ?_⟩
    split_ifs
    · simp [hP.digit, hP.point]
    · exact hP.renderDecimal _ _

end OfNumbers
end RegexCorpus
