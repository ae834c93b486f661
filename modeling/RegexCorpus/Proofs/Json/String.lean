import Mathlib.Tactic.IntervalCases
import RegexCorpus.Json.Reader
import RegexCorpus.Json.Writer
import RegexCorpus.Proofs.Text.Unit

/-!
# Strings in JSON

A string is written in printable ASCII, and reading takes back exactly its characters and leaves the
text after the closing quote.
-/

namespace RegexCorpus.Json
open List Text

variable {n : Nat}

/-- A printable character of ASCII. -/
def IsPlain (c : Char) : Prop := 0x20 ≤ c.toNat ∧ c.toNat < 0x7f

instance (c : Char) : Decidable (IsPlain c) := inferInstanceAs (Decidable (_ ∧ _))

/-! ### Hexadecimal digits -/

theorem hexValue?_digitChar {d : Nat} (h : d < 16) : hexValue? d.digitChar = some d := by
  interval_cases d <;> rfl

theorem isPlain_digitChar {d : Nat} (h : d < 16) : IsPlain d.digitChar := by
  interval_cases d <;> decide

theorem hex_succ {w : Nat} (hw : 0 < w) (n : Nat) :
    hex (w + 1) n = hex w (n / 16) ++ [(n % 16).digitChar] := by
  by_cases h : n < 16
  · obtain ⟨w, rfl⟩ := Nat.exists_eq_succ_of_ne_zero hw.ne'
    rw [Nat.div_eq_of_lt h, Nat.mod_eq_of_lt h, hex, hex, Nat.toDigits_zero,
      Nat.toDigits_of_lt_base h]
    simp [replicate_succ']
  · simp only [hex]
    rw [Nat.toDigits_of_base_le (by decide) (by omega)]
    simp

/-- A code unit has four hexadecimal digits. -/
theorem hex_four (h : n < 0x10000) :
    hex 4 n = [(n / 4096).digitChar, (n / 256 % 16).digitChar, (n / 16 % 16).digitChar,
      (n % 16).digitChar] := by
  have hfirst : hex 1 (n / 4096) = [(n / 4096).digitChar] := by
    rw [hex, Nat.toDigits_of_lt_base (by omega)]
    rfl
  rw [hex_succ (by decide), hex_succ (by decide), hex_succ (by decide), Nat.div_div_eq_div_mul,
    Nat.div_div_eq_div_mul, hfirst]
  simp [Nat.div_div_eq_div_mul]

theorem unit?_hex (h : n < 0x10000) :
    unit? (n / 4096).digitChar (n / 256 % 16).digitChar (n / 16 % 16).digitChar
      (n % 16).digitChar = some n := by
  have hn : (n / 4096 * 16 + n / 256 % 16) * 256 + n / 16 % 16 * 16 + n % 16 = n := by omega
  rw [unit?, hexValue?_digitChar (by omega), hexValue?_digitChar (by omega),
    hexValue?_digitChar (by omega), hexValue?_digitChar (by omega)]
  simp [hn]

/-! ### Code units -/

theorem toNat_ofNat_of_lt (h : n < 0xd800) : (Char.ofNat n).toNat = n := by
  have hv : n.isValidChar := .inl h
  rw [Char.ofNat, dif_pos hv]
  rfl

/-- The forms of a written code unit: a backslash and a letter, the character itself, or four
hexadecimal digits. -/
theorem writeUnit_cases (n : Nat) :
    (∃ e, writeUnit n = ['\\', e] ∧ escaped? e = some n ∧ IsPlain e ∧ e ≠ 'u') ∨
    (writeUnit n = [Char.ofNat n] ∧ 0x20 ≤ n ∧ n < 0x7f ∧ n ≠ 0x22 ∧ n ≠ 0x5c) ∨
    writeUnit n = '\\' :: 'u' :: hex 4 n := by
  simp only [writeUnit, beq_iff_eq, Bool.and_eq_true, decide_eq_true_eq]
  split_ifs with h₁ h₂ h₃ h₄ h₅ h₆ h₇ h₈
  · exact .inl ⟨_, rfl, by rw [h₁]; rfl, by decide, by decide⟩
  · exact .inl ⟨_, rfl, by rw [h₂]; rfl, by decide, by decide⟩
  · exact .inl ⟨_, rfl, by rw [h₃]; rfl, by decide, by decide⟩
  · exact .inl ⟨_, rfl, by rw [h₄]; rfl, by decide, by decide⟩
  · exact .inl ⟨_, rfl, by rw [h₅]; rfl, by decide, by decide⟩
  · exact .inl ⟨_, rfl, by rw [h₆]; rfl, by decide, by decide⟩
  · exact .inl ⟨_, rfl, by rw [h₇]; rfl, by decide, by decide⟩
  · exact .inr (.inl ⟨rfl, by omega⟩)
  · exact .inr (.inr rfl)

theorem readUnits_writeUnit (h : n < 0x10000) (cs : List Char) :
    readUnits (writeUnit n ++ cs) = (readUnits cs).map fun (us, r) => (n :: us, r) := by
  obtain ⟨e, he, hn, -, hu⟩ | ⟨hc, hlo, hhi, hq, hb⟩ | hhex := writeUnit_cases n
  · have hletter : ∀ h₁ h₂ h₃ h₄ rest, e = 'u' → cs = h₁ :: h₂ :: h₃ :: h₄ :: rest → False :=
      fun _ _ _ _ _ he _ => hu he
    rw [he, cons_append, cons_append, nil_append, readUnits]
    simp only [Char.reduceBEq, Bool.false_eq_true, if_false, if_true, hn]
    · cases readUnits cs <;> rfl
    · exact hletter
  · have htoNat : (Char.ofNat n).toNat = n := toNat_ofNat_of_lt (by omega)
    have hquote : Char.ofNat n ≠ '"' := fun he => hq (by rw [← htoNat, he]; rfl)
    have hback : Char.ofNat n ≠ '\\' := fun he => hb (by rw [← htoNat, he]; rfl)
    rw [hc, cons_append, nil_append, readUnits.eq_def]
    simp only [beq_iff_eq, hquote, hback, if_false, htoNat, Nat.not_lt.mpr hlo]
  · rw [hhex, hex_four h]
    simp only [cons_append, nil_append]
    rw [readUnits]
    simp only [Char.reduceBEq, Bool.false_eq_true, if_false, if_true, unit?_hex h]
    cases readUnits cs <;> rfl

theorem isPlain_writeUnit (h : n < 0x10000) {c : Char} (hc : c ∈ writeUnit n) : IsPlain c := by
  obtain ⟨e, he, -, hp, -⟩ | ⟨hn, hlo, hhi, -, -⟩ | hhex := writeUnit_cases n
  · rw [he] at hc
    simp only [mem_cons, not_mem_nil, or_false] at hc
    obtain rfl | rfl := hc
    · decide
    · exact hp
  · rw [hn, mem_singleton] at hc
    rw [hc, IsPlain, toNat_ofNat_of_lt (by omega)]
    exact ⟨hlo, hhi⟩
  · rw [hhex, hex_four h] at hc
    simp only [mem_cons, not_mem_nil, or_false] at hc
    obtain rfl | rfl | rfl | rfl | rfl | rfl := hc
    · decide
    · decide
    all_goals exact isPlain_digitChar (by omega)

/-! ### Strings -/

theorem readUnits_flatMap {us : List Nat} (h : ∀ n ∈ us, n < 0x10000) (cs : List Char) :
    readUnits (us.flatMap writeUnit ++ '"' :: cs) = some (us, cs) := by
  induction us with
  | nil =>
    rw [flatMap_nil, nil_append, readUnits.eq_def]
    rfl
  | cons n us ih =>
    rw [flatMap_cons, append_assoc, readUnits_writeUnit (h n (by simp)),
      ih fun m hm => h m (by simp [hm])]
    rfl

theorem readString_units (s : String) (cs : List Char) :
    readString ((units s.toList).flatMap writeUnit ++ '"' :: cs) = .ok (s, cs) := by
  rw [readString, readUnits_flatMap fun _ => units_lt]
  simp [ofUnits_units]

theorem isPlain_writeString {s : String} {c : Char} (hc : c ∈ writeString s) : IsPlain c := by
  simp only [writeString, cons_append, mem_cons, mem_append, mem_flatMap,
    not_mem_nil, or_false] at hc
  obtain rfl | ⟨n, hn, hc⟩ | rfl := hc
  · decide
  · exact isPlain_writeUnit (units_lt hn) hc
  · decide

end RegexCorpus.Json
