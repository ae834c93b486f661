import RegexCorpus.Text.Search
import Mathlib.Data.List.Infix

/-!
# Texts inside texts

What it means that a text stands in another, and that two of its characters stand apart.
-/

namespace RegexCorpus.Text
open List

variable {needle t cs : List Char} {l r : Char}

theorem hasInfix_iff : hasInfix needle cs = true ↔ needle <:+: cs := by
  induction cs with
  | nil => simp [hasInfix]
  | cons c cs ih =>
    rw [hasInfix, Bool.or_eq_true, ih, isPrefixOf_iff_prefix, infix_cons_iff]

/-- The one character stands at least two places before the other. -/
def Encloses (l r : Char) (cs : List Char) : Prop :=
  ∃ i j : Nat, i + 2 ≤ j ∧ cs[i]? = some l ∧ cs[j]? = some r

/-- Between the two characters there is a text. -/
theorem encloses_iff : Encloses l r cs ↔ ∃ mid, mid ≠ [] ∧ l :: (mid ++ [r]) <:+: cs := by
  constructor
  · rintro ⟨i, j, hij, hl, hr⟩
    obtain ⟨hi, rfl⟩ := List.getElem?_eq_some_iff.mp hl
    obtain ⟨hj, rfl⟩ := List.getElem?_eq_some_iff.mp hr
    refine ⟨(cs.drop (i + 1)).take (j - (i + 1)), ?_, cs.take i, cs.drop (j + 1), ?_⟩
    · rw [← length_pos_iff, length_take, length_drop]
      omega
    · have hrest : cs.drop (i + 1) =
          (cs.drop (i + 1)).take (j - (i + 1)) ++ cs[j] :: cs.drop (j + 1) := by
        have hdrop : (cs.drop (i + 1)).drop (j - (i + 1)) = cs.drop j := by
          rw [drop_drop, Nat.add_sub_cancel' (by omega)]
        rw [← drop_eq_getElem_cons hj, ← hdrop, take_append_drop]
      conv_rhs => rw [← take_append_drop i cs, drop_eq_getElem_cons hi, hrest]
      simp
  · rintro ⟨mid, hmid, pre, post, rfl⟩
    have hpos := length_pos_iff.mpr hmid
    refine ⟨pre.length, pre.length + (mid.length + 1), by omega, by simp, ?_⟩
    rw [append_assoc, getElem?_append_right (by omega), Nat.add_sub_cancel_left]
    simp

theorem Encloses.mono (h : Encloses l r t) (ht : t <:+: cs) : Encloses l r cs := by
  obtain ⟨mid, hmid, hinfix⟩ := encloses_iff.mp h
  exact encloses_iff.mpr ⟨mid, hmid, hinfix.trans ht⟩

end RegexCorpus.Text
