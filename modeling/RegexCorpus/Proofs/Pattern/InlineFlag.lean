import RegexCorpus.Pattern.InlineFlag
import Mathlib.Algebra.Group.Nat.Even
import Mathlib.Data.List.Basic
import Mathlib.Data.Nat.Notation
import Mathlib.Order.Basic
import Mathlib.Tactic.Cases

/-!
# Where inline flags stand

The scan over a pattern keeps two marks: that the next character is escaped, and that it stands in a
run of flags. Both can be told from the text before that character. So the flags that the scan
replaces are told by their places alone, and where they have been replaced by other flags, none is
left.
-/

namespace RegexCorpus.Pattern
open List

variable {alternative p cs : List Char} {c : Char} {i j : ℕ} {e f : Bool}

/-! ### Places of flags -/

/-- How many backslashes stand at the end of a text, one after the other. -/
def backslashes (u : List Char) : ℕ := (u.reverse.takeWhile (· == '\\')).length

/-- A parenthesis with a question mark after it stands at place `i`, and is not escaped. -/
def OpensFlags (p : List Char) (i : ℕ) : Prop :=
  p[i]? = some '(' ∧ Even (backslashes (p.take i)) ∧ p[i + 1]? = some '?'

/-- A character that may stand among flags is at place `k`. -/
def IsFlagChar (p : List Char) (k : ℕ) : Prop := ∃ c ∈ flagChars, p[k]? = some c

/-- A flag may stand at place `j`: such characters reach up to it from a place where flags start. -/
def IsFlagPlace (p : List Char) (j : ℕ) : Prop :=
  ∃ i < j, OpensFlags p i ∧ ∀ k ≤ j, i < k → IsFlagChar p k

instance (p : List Char) (i : ℕ) : Decidable (OpensFlags p i) :=
  inferInstanceAs (Decidable (_ ∧ _ ∧ _))

instance (p : List Char) (k : ℕ) : Decidable (IsFlagChar p k) :=
  decidable_of_iff (p[k]?.any flagChars.contains = true) (by
    cases h : p[k]? <;> simp [IsFlagChar, h])

instance (p : List Char) (j : ℕ) : Decidable (IsFlagPlace p j) :=
  inferInstanceAs (Decidable (∃ i < j, OpensFlags p i ∧ ∀ k ≤ j, i < k → IsFlagChar p k))

/-- What a character of the pattern becomes, given with its place. -/
def replacement (alternative p : List Char) (x : Char × ℕ) : List Char :=
  if x.1 = 'u' ∧ IsFlagPlace p x.2 then alternative else [x.1]

/-- The pattern with `alternative` in place of each `u` at a place of flags. -/
def replaceAtFlags (alternative p : List Char) : List Char :=
  p.zipIdx.flatMap (replacement alternative p)

theorem backslashes_concat (u : List Char) (c : Char) :
    backslashes (u ++ [c]) = if c = '\\' then backslashes u + 1 else 0 := by
  by_cases hc : c = '\\' <;> simp [backslashes, hc]

/-- Flags reach up to place `j`, whatever stands there. -/
def ReachesFlags (p : List Char) (j : ℕ) : Prop :=
  ∃ i < j, OpensFlags p i ∧ ∀ k < j, i < k → IsFlagChar p k

theorem isFlagPlace_iff : IsFlagPlace p j ↔ ReachesFlags p j ∧ IsFlagChar p j := by
  constructor
  · rintro ⟨i, hi, hopens, hrun⟩
    exact ⟨⟨i, hi, hopens, fun k hk => hrun k hk.le⟩, hrun j le_rfl hi⟩
  · rintro ⟨⟨i, hi, hopens, hrun⟩, hj⟩
    refine ⟨i, hi, hopens, fun k hk hik => ?_⟩
    rcases hk.lt_or_eq with hk | rfl
    · exact hrun k hk hik
    · exact hj

theorem reachesFlags_succ : ReachesFlags p (j + 1) ↔ OpensFlags p j ∨ IsFlagPlace p j := by
  constructor
  · rintro ⟨i, hi, hopens, hrun⟩
    rcases (Nat.lt_succ_iff.mp hi).lt_or_eq with hi | rfl
    · exact .inr ⟨i, hi, hopens, fun k hk => hrun k (Nat.lt_succ_iff.mpr hk)⟩
    · exact .inl hopens
  · rintro (hopens | ⟨i, hi, hopens, hrun⟩)
    · exact ⟨j, Nat.lt_succ_self j, hopens, fun k hk hjk => by omega⟩
    · exact ⟨i, Nat.lt_succ_of_lt hi, hopens, fun k hk => hrun k (Nat.lt_succ_iff.mp hk)⟩

theorem parenthesis_not_mem_flagChars : '(' ∉ flagChars := by decide

theorem backslash_not_mem_flagChars : '\\' ∉ flagChars := by decide

theorem not_opensFlags_of_ne (hj : p[j]? = some c) (hc : c ≠ '(') : ¬OpensFlags p j := by
  rintro ⟨h, -⟩
  rw [hj] at h
  exact hc (Option.some.inj h)

/-! ### The marks of the scan -/

/-- The marks of the scan at place `j` of the pattern. -/
structure IsState (p : List Char) (j : ℕ) (escaped flags : Bool) : Prop where
  escaped : escaped = true ↔ ¬Even (backslashes (p.take j))
  flags : flags = true ↔ ReachesFlags p j

theorem isState_zero (p : List Char) : IsState p 0 false false where
  escaped := by simp [backslashes]
  flags := by simp [ReachesFlags]

theorem inFlags_iff (next : Option Char) :
    inFlags e f c next = true ↔
      (e = false ∧ c = '(' ∧ next = some '?') ∨ f = true ∧ c ∈ flagChars := by
  unfold inFlags
  by_cases h : e = false ∧ c = '(' ∧ next = some '?'
  · simp [h]
  · simp only [h, false_or]
    rw [if_neg (by simpa [and_assoc] using h)]
    simp

theorem IsState.inFlags_iff (h : IsState p j e f) (hj : p[j]? = some c) :
    inFlags e f c p[j + 1]? = true ↔ ReachesFlags p (j + 1) := by
  have hopens : (e = false ∧ c = '(' ∧ p[j + 1]? = some '?') ↔ OpensFlags p j := by
    unfold OpensFlags
    rw [← Bool.not_eq_true, h.escaped, not_not, hj, Option.some.injEq]
    exact and_left_comm
  have hplace : (f = true ∧ c ∈ flagChars) ↔ IsFlagPlace p j := by
    rw [isFlagPlace_iff, h.flags]
    simp [IsFlagChar, hj]
  rw [Pattern.inFlags_iff, hopens, hplace, reachesFlags_succ]

/-- Reading a character leads from the marks at its place to those at the next place. -/
theorem IsState.succ (h : IsState p j e f) (hj : p[j]? = some c) :
    IsState p (j + 1) (c == '\\' && !e) (inFlags e f c p[j + 1]?) where
  escaped := by
    rw [take_add_one, hj, Option.toList_some, backslashes_concat]
    by_cases hc : c = '\\'
    · rw [if_pos hc, Nat.even_add_one, not_not, ← not_iff_not, ← h.escaped]
      simp [hc]
    · simp [hc]
  flags := h.inFlags_iff hj

theorem IsState.isFlagPlace_iff (h : IsState p j e f) (hj : p[j]? = some 'u') :
    inFlags e f 'u' p[j + 1]? = true ↔ IsFlagPlace p j := by
  rw [h.inFlags_iff hj, reachesFlags_succ]
  exact or_iff_right (not_opensFlags_of_ne hj (by decide))

/-! ### The scan -/

theorem drop_eq_cons (h : p.drop j = c :: cs) :
    p[j]? = some c ∧ p.drop (j + 1) = cs ∧ cs.head? = p[j + 1]? := by
  have hrest : p.drop (j + 1) = cs := by rw [← tail_drop, h, tail_cons]
  exact ⟨by rw [← head?_drop, h, head?_cons], hrest, by rw [← hrest, head?_drop]⟩

theorem replaceFlagFrom_eq_flatMap (h : IsState p j e f) (hcs : p.drop j = cs) :
    replaceFlagFrom alternative e f cs = (cs.zipIdx j).flatMap (replacement alternative p) := by
  induction cs generalizing j e f with
  | nil => rfl
  | cons c cs ih =>
    obtain ⟨hj, hrest, hnext⟩ := drop_eq_cons hcs
    rw [replaceFlagFrom, zipIdx_cons, flatMap_cons, hnext, ih (h.succ hj) hrest]
    congr 1
    unfold replacement
    by_cases hc : c = 'u'
    · subst hc
      simp [h.isFlagPlace_iff hj]
    · simp [hc]

theorem replaceAtFlags_eq_self (h : ∀ j, IsFlagPlace p j → p[j]? ≠ some 'u') :
    replaceAtFlags alternative p = p := by
  have hkeep : ∀ x ∈ p.zipIdx, replacement alternative p x = [x.1] := by
    rintro ⟨c, j⟩ hx
    refine if_neg ?_
    rintro ⟨rfl, hj⟩
    exact h j hj (mem_zipIdx_iff_getElem?.mp hx)
  unfold replaceAtFlags
  rw [flatMap_congr hkeep, ← map_eq_flatMap, zipIdx_map_fst]

/-! ### What comes out -/

/-- The scan of the rest of a pattern meets no flag to replace. -/
def IsFree : Bool → Bool → List Char → Prop
  | _, _, [] => True
  | e, f, c :: cs =>
    ¬(inFlags e f c cs.head? = true ∧ c = 'u') ∧
      IsFree (c == '\\' && !e) (inFlags e f c cs.head?) cs

/-- Where the scan meets no flag to replace, no `u` stands at a place of flags. -/
theorem IsFree.not_flag (hfree : IsFree e f cs) (h : IsState p j e f) (hcs : p.drop j = cs)
    {k : ℕ} (hk : j ≤ k) (hplace : IsFlagPlace p k) : p[k]? ≠ some 'u' := by
  induction cs generalizing j e f with
  | nil =>
    have hend : p[k]? = none := by
      rw [List.getElem?_eq_none_iff]
      exact (drop_eq_nil_iff.mp hcs).trans hk
    simp [hend]
  | cons c cs ih =>
    obtain ⟨hj, hrest, hnext⟩ := drop_eq_cons hcs
    obtain ⟨hhead, htail⟩ := hfree
    rw [hnext] at hhead htail
    rcases hk.lt_or_eq with hk | rfl
    · exact ih htail (h.succ hj) hrest hk
    · intro hu
      obtain rfl : c = 'u' := Option.some.inj (hj.symm.trans hu)
      exact hhead ⟨(h.isFlagPlace_iff hj).mpr hplace, rfl⟩

theorem isFree_append (hletters : ∀ c ∈ alternative, c ∈ flagChars ∧ c ≠ 'u')
    (hcs : IsFree false true cs) : IsFree false true (alternative ++ cs) := by
  induction alternative with
  | nil => exact hcs
  | cons a as ih =>
    rw [forall_mem_cons] at hletters
    obtain ⟨⟨ha, hu⟩, has⟩ := hletters
    have hflags (next : Option Char) : inFlags false true a next = true :=
      (inFlags_iff next).mpr (.inr ⟨rfl, ha⟩)
    have hback : (a == '\\') = false := by
      rw [beq_eq_false_iff_ne]
      rintro rfl
      exact backslash_not_mem_flagChars ha
    refine ⟨fun h => hu h.2, ?_⟩
    rw [hflags, hback]
    exact ih has

theorem head?_replaceFlagFrom (h : f = false ∨ cs.head? ≠ some 'u') :
    (replaceFlagFrom alternative e f cs).head? = cs.head? := by
  cases cs with
  | nil => rfl
  | cons c cs =>
    have hkeep : ¬(inFlags e f c cs.head? = true ∧ c = 'u') := by
      rintro ⟨hflags, rfl⟩
      rw [inFlags_iff] at hflags
      simp_all
    rw [replaceFlagFrom, if_neg (by simpa using hkeep)]
    rfl

/-- After a character that stays, the scan is among flags as it was before. -/
theorem inFlags_head? :
    inFlags e f c
        (replaceFlagFrom alternative (c == '\\' && !e) (inFlags e f c cs.head?) cs).head? =
      inFlags e f c cs.head? := by
  by_cases hopen : c = '('
  · -- only here does the next character matter; if flags start, it is a question mark
    subst hopen
    rw [head?_replaceFlagFrom]
    by_cases hnext : cs.head? = some 'u'
    · left
      rw [← Bool.not_eq_true, inFlags_iff, hnext]
      simp [parenthesis_not_mem_flagChars]
    · exact .inr hnext
  · rw [Bool.eq_iff_iff, inFlags_iff, inFlags_iff]
    simp [hopen]

theorem isFree_replaceFlagFrom (hletters : ∀ c ∈ alternative, c ∈ flagChars ∧ c ≠ 'u')
    (hmarks : f = true → e = false) : IsFree e f (replaceFlagFrom alternative e f cs) := by
  induction cs generalizing e f with
  | nil => trivial
  | cons c cs ih =>
    -- no backslash stands among flags, so that the next character is not escaped
    have hnext : inFlags e f c cs.head? = true → (c == '\\' && !e) = false := by
      rw [inFlags_iff]
      rintro (⟨-, rfl, -⟩ | ⟨-, hc⟩)
      · rfl
      · have hback : c ≠ '\\' := by
          rintro rfl
          exact backslash_not_mem_flagChars hc
        simp [hback]
    have hrest := ih hnext
    rw [replaceFlagFrom]
    by_cases hu : inFlags e f c cs.head? = true ∧ c = 'u'
    · obtain ⟨hflags, rfl⟩ := hu
      have hf : f = true := by
        rcases (inFlags_iff _).mp hflags with ⟨-, hopen, -⟩ | ⟨hf, -⟩
        · exact absurd hopen (by decide)
        · exact hf
      rw [hflags] at hrest
      rw [hflags, hmarks hf, hf]
      exact isFree_append hletters hrest
    · rw [if_neg (by simpa using hu), singleton_append, IsFree, inFlags_head?]
      exact ⟨hu, hrest⟩

/-! ### Whole patterns -/

theorem toList_replaceUnicodeFlag (alternative p : String) :
    (replaceUnicodeFlag alternative p).toList = replaceAtFlags alternative.toList p.toList := by
  rw [replaceUnicodeFlag, String.toList_ofList]
  exact replaceFlagFrom_eq_flatMap (isState_zero _) rfl

theorem replaceUnicodeFlag_eq_self {p : String} (alternative : String)
    (h : ∀ i, ¬OpensFlags p.toList i) : replaceUnicodeFlag alternative p = p := by
  rw [← String.toList_inj, toList_replaceUnicodeFlag]
  refine replaceAtFlags_eq_self ?_
  rintro j ⟨i, -, hopens, -⟩
  exact absurd hopens (h i)

/-- The scan puts the alternative in place of exactly those `u` that stand at a place of flags. If
the alternative is made of other flags, no `u` is left at such a place, and a second scan changes
nothing. A pattern in which no flags start stays as it is. -/
theorem replaceUnicodeFlag_atFlagPlaces {alternative : String}
    (h : ∀ c ∈ alternative.toList, c ∈ flagChars ∧ c ≠ 'u') (p : String) :
    (replaceUnicodeFlag alternative p).toList = replaceAtFlags alternative.toList p.toList ∧
      (∀ j, IsFlagPlace (replaceUnicodeFlag alternative p).toList j →
        (replaceUnicodeFlag alternative p).toList[j]? ≠ some 'u') ∧
      replaceUnicodeFlag alternative (replaceUnicodeFlag alternative p) =
        replaceUnicodeFlag alternative p ∧
      ((∀ i, ¬OpensFlags p.toList i) → replaceUnicodeFlag alternative p = p) := by
  have hfree : ∀ j, IsFlagPlace (replaceUnicodeFlag alternative p).toList j →
      (replaceUnicodeFlag alternative p).toList[j]? ≠ some 'u' := by
    intro j hj
    refine IsFree.not_flag ?_ (isState_zero _) rfl j.zero_le hj
    rw [drop_zero, replaceUnicodeFlag, String.toList_ofList]
    exact isFree_replaceFlagFrom h (by simp)
  refine ⟨toList_replaceUnicodeFlag alternative p, hfree, ?_,
    replaceUnicodeFlag_eq_self alternative⟩
  rw [← String.toList_inj, toList_replaceUnicodeFlag]
  exact replaceAtFlags_eq_self hfree

/-- Two runs of flags after one that is escaped: only the letters among flags are replaced. -/
theorem replaceUnicodeFlag_twoRuns :
    (∀ c ∈ "xi".toList, c ∈ flagChars ∧ c ≠ 'u') ∧
      replaceAtFlags "xi".toList "\\(?u\\\\(?su:u(?u-m)".toList =
        "\\(?u\\\\(?sxi:u(?xi-m)".toList ∧
      replaceUnicodeFlag "xi" (replaceUnicodeFlag "xi" "\\(?u\\\\(?su:u(?u-m)") =
        replaceUnicodeFlag "xi" "\\(?u\\\\(?su:u(?u-m)" := by
  have h : ∀ c ∈ "xi".toList, c ∈ flagChars ∧ c ≠ 'u' :=
    forall_mem_cons.mpr ⟨by decide, forall_mem_singleton.mpr (by decide)⟩
  exact ⟨h, by decide, (replaceUnicodeFlag_atFlagPlaces h _).2.2.1⟩

end RegexCorpus.Pattern
