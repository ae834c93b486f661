import RegexCorpus.Proofs.Value
import Mathlib.Tactic.NormNum

/-!
# Keys

Two atoms are one key when they stand for the same thing: numbers of any kind for their value, what
is no number for itself, and all else for its content. So being one key is an equivalence, and a
dictionary can be looked up under any atom.
-/

namespace RegexCorpus
open Atom

inductive Atom.Identity where
  | null
  | str (s : String)
  | notNumber
  | infinite (negative : Bool)
  | number (q : ℚ)
  deriving DecidableEq

namespace Double

variable {e : ℤ} {s : Bool} {m : ℕ} {x : Double}

def value (negative : Bool) (mantissa : ℕ) (exponent : ℤ) : ℚ :=
  (if negative then -(mantissa : ℚ) else mantissa) * 2 ^ exponent

def identity : Double → Atom.Identity
  | nan => .notNumber
  | infinite s => .infinite s
  | finite s m e => .number (value s m e)

theorem two_pow_mul {low : ℤ} (h : low ≤ e) : (2 : ℚ) ^ (e - low).toNat * 2 ^ low = 2 ^ e := by
  rw [← zpow_natCast, Int.toNat_of_nonneg (by omega), ← zpow_add₀ (by norm_num)]
  congr 1
  omega

theorem mantissaAt_mul {low : ℤ} (h : low ≤ e) :
    (mantissaAt s m e low : ℚ) * 2 ^ low = value s m e := by
  cases s <;> simp [mantissaAt, value, ← two_pow_mul h, mul_assoc]

theorem mantissaAt_eq_iff {t : Bool} {n : ℕ} {f : ℤ} :
    mantissaAt s m e (min e f) = mantissaAt t n f (min e f) ↔ value s m e = value t n f := by
  have hpow : (2 : ℚ) ^ min e f ≠ 0 := zpow_ne_zero _ (by norm_num)
  rw [← mantissaAt_mul (min_le_left e f), ← mantissaAt_mul (min_le_right e f),
    mul_left_inj' hpow, Int.cast_inj]

theorem mantissaAt_eq_int_iff {k : ℤ} :
    mantissaAt s m e (min e 0) = k * Int.pow 2 (0 - min e 0).toNat ↔ value s m e = k := by
  have hpow : (2 : ℚ) ^ min e 0 ≠ 0 := zpow_ne_zero _ (by norm_num)
  have hk : ((k * Int.pow 2 (0 - min e 0).toNat : ℤ) : ℚ) * 2 ^ min e 0 = k := by
    have htwo := two_pow_mul (min_le_right e 0)
    rw [zpow_zero] at htwo
    rw [Int.cast_mul, mul_assoc]
    exact (congrArg ((k : ℚ) * ·) (by simpa using htwo)).trans (mul_one _)
  rw [← Int.cast_inj (α := ℚ), ← mul_left_inj' hpow, hk, mantissaAt_mul (min_le_left e 0)]

theorem compareInt?_eq_iff {k : ℤ} : x.compareInt? k = some .eq ↔ x.identity = .number k := by
  cases x with
  | nan => simp [compareInt?, identity]
  | infinite s => cases s <;> simp [compareInt?, identity]
  | finite s m e =>
    simp only [compareInt?, identity, Option.some.injEq, compare_eq_iff_eq,
      Atom.Identity.number.injEq]
    exact mantissaAt_eq_int_iff

theorem compare?_eq_iff {y : Double} :
    x.compare? y = some .eq ↔ x.identity = y.identity ∧ x ≠ nan := by
  cases x with
  | nan => simp [compare?]
  | infinite s =>
    cases y with
    | nan => simp [compare?, identity]
    | infinite t => cases s <;> cases t <;> simp [compare?, identity]
    | finite t n f => cases s <;> simp [compare?, identity]
  | finite s m e =>
    cases y with
    | nan => simp [compare?, identity]
    | infinite t => cases t <;> simp [compare?, identity]
    | finite t n f =>
      simp only [compare?, identity, Option.some.injEq, compare_eq_iff_eq,
        Atom.Identity.number.injEq, ne_eq, reduceCtorEq, not_false_eq_true, and_true]
      exact mantissaAt_eq_iff

theorem identity_eq_notNumber : x.identity = .notNumber ↔ x = nan := by
  cases x <;> simp [identity]

end Double

namespace Atom

variable {a b : Atom}

def identity : Atom → Identity
  | null => .null
  | bool b => .number (if b then 1 else 0)
  | int n => .number n
  | double x => x.identity
  | str s => .str s

def numberIdentity : ℤ ⊕ Double → Identity
  | .inl n => .number n
  | .inr x => x.identity

/-- Two numbers are equal when they have the same value and are numbers at all. -/
theorem compareNumbers?_eq_iff {x y : ℤ ⊕ Double} :
    compareNumbers? x y = some .eq ↔ numberIdentity x = numberIdentity y ∧ x ≠ .inr .nan := by
  rcases x with m | x <;> rcases y with n | y
  · simp [compareNumbers?, numberIdentity]
  · have hswap : (y.compareInt? m).map Ordering.swap = some .eq ↔ y.compareInt? m = some .eq := by
      cases y.compareInt? m with
      | none => simp
      | some o => cases o <;> simp
    rw [compareNumbers?, hswap, Double.compareInt?_eq_iff, numberIdentity, numberIdentity, eq_comm]
    simp
  · rw [compareNumbers?, Double.compareInt?_eq_iff, numberIdentity, numberIdentity]
    refine ⟨fun h => ⟨h, ?_⟩, And.left⟩
    rintro ⟨⟩
    cases h
  · rw [compareNumbers?, Double.compare?_eq_iff, numberIdentity, numberIdentity]
    simp

theorem identity_of_toNumber? {x : ℤ ⊕ Double} (h : a.toNumber? = some x) :
    a.identity = numberIdentity x := by
  cases a with
  | null | str s => cases h
  | bool b =>
    cases h
    cases b <;> simp [identity, numberIdentity]
  | int n | double y =>
    cases h
    rfl

/-- Two atoms are equal when they stand for the same thing and are not outside of all numbers. -/
theorem same_iff : a.same b = true ↔ a.identity = b.identity ∧ a ≠ .double .nan := by
  have hnumbers {x y : ℤ ⊕ Double} (hx : a.toNumber? = some x) (hy : b.toNumber? = some y)
      (h : a.same b = (compareNumbers? x y == some .eq)) :
      a.same b = true ↔ a.identity = b.identity ∧ x ≠ .inr .nan := by
    rw [h, beq_iff_eq, compareNumbers?_eq_iff, identity_of_toNumber? hx, identity_of_toNumber? hy]
  cases a with
  | null | str s => cases b with
    | double y => cases y <;> simp [same, toNumber?, identity, Double.identity]
    | _ => simp [same, toNumber?, identity]
  | bool c | int m => cases b with
    | null | str _ => simp [same, toNumber?, identity]
    | _ => simpa using hnumbers rfl rfl rfl
  | double x => cases b with
    | null | str _ => cases x <;> simp [same, toNumber?, identity, Double.identity]
    | _ => simpa using hnumbers rfl rfl rfl

theorem samePart_iff : a.samePart b = true ↔ a.identity = b.identity := by
  unfold samePart
  split
  · simp
  · next hne =>
    rw [same_iff, and_iff_left_iff_imp]
    rintro h rfl
    cases b with
    | double y => exact hne rfl (congrArg _ (Double.identity_eq_notNumber.mp h.symm))
    | _ => cases h

theorem samePart_refl (a : Atom) : a.samePart a = true := samePart_iff.mpr rfl

theorem samePart_comm (a b : Atom) : a.samePart b = b.samePart a := by
  rw [Bool.eq_iff_iff, samePart_iff, samePart_iff, eq_comm]

theorem samePart_congr (h : a.samePart b = true) (c : Atom) : a.samePart c = b.samePart c := by
  rw [Bool.eq_iff_iff, samePart_iff, samePart_iff, samePart_iff.mp h]

end Atom

/-! ### Tables -/

section
variable {β : Type}

/-- An entry set: in place of the old one with its key, or as a new last entry. -/
def upsert (k : Atom) (v : β) : List (Atom × β) → List (Atom × β)
  | [] => [(k, v)]
  | e :: es => if e.1.samePart k then (e.1, v) :: es else e :: upsert k v es

/-- An entry that was set is found under its key, and the others are as they were. -/
theorem find?_upsert (k l : Atom) (v : β) (es : List (Atom × β)) :
    ((upsert k v es).find? (·.1.samePart l)).map Prod.snd =
      if k.samePart l then some v else (es.find? (·.1.samePart l)).map Prod.snd := by
  induction es with
  | nil =>
    rw [upsert, List.find?_singleton]
    split_ifs <;> rfl
  | cons e es ih =>
    rw [upsert]
    by_cases hk : e.1.samePart k = true
    · rw [if_pos hk, List.find?_cons, List.find?_cons, samePart_congr hk]
      cases k.samePart l <;> rfl
    · rw [if_neg hk, List.find?_cons, List.find?_cons]
      cases hl : e.1.samePart l with
      | true =>
        have hkl : ¬k.samePart l = true := by
          rwa [samePart_comm, ← samePart_congr hl]
        rw [if_neg hkl]
      | false => exact ih

end

namespace Entries

theorem set_eq_upsert (k : Atom) (v : Value) (es : Entries) : set k v es = upsert k v es := by
  induction es with
  | nil => rfl
  | cons e es ih => rw [set, upsert, ih]

theorem find?_cons (e : Atom × Value) (es : Entries) (k : Atom) :
    find? (e :: es) k = if e.1.samePart k then some e.2 else find? es k := by
  rw [find?, List.find?_cons]
  cases e.1.samePart k <;> rfl

theorem find?_congr {k l : Atom} (h : k.samePart l = true) (es : Entries) :
    find? es k = find? es l := by
  induction es with
  | nil => rfl
  | cons e es ih =>
    rw [find?_cons, find?_cons, ih, samePart_comm, samePart_congr h, samePart_comm]

theorem find?_set (k l : Atom) (v : Value) (es : Entries) :
    find? (set k v es) l = if k.samePart l then some v else find? es l := by
  rw [set_eq_upsert]
  exact find?_upsert k l v es

end Entries

namespace Value

variable {v v' w : Value} {k : String}

theorem item_dict (es : Entries) (k : Atom) :
    (dict es).item (.atom k) = match Entries.find? es k with
      | some w => .ok w
      | none => .error (.missingKey k) := rfl

theorem put_eq_ok (h : v.put (.str k) w = .ok v') :
    ∃ es, v = .dict es ∧ v' = .dict (Entries.set (.str k) w es) := by
  cases v with
  | atom | list => cases h
  | dict es =>
    cases h
    exact ⟨es, rfl, rfl⟩

theorem get_of_put (h : v.put (.str k) w = .ok v') : v'.get k = .ok w := by
  obtain ⟨es, rfl, rfl⟩ := put_eq_ok h
  exact get_eq_ok.mpr ⟨_, rfl, Entries.find?_set_self⟩

theorem item_of_put (h : v.put (.str k) w = .ok v') {l : Atom} (hl : l ≠ .str k) :
    v'.item (.atom l) = v.item (.atom l) := by
  obtain ⟨es, rfl, rfl⟩ := put_eq_ok h
  have hne : ¬(Atom.str k).samePart l = true := by
    rw [samePart_comm, samePart_str]
    simpa using hl
  rw [item_dict, item_dict, Entries.find?_set, if_neg hne]

end Value
end RegexCorpus
