import RegexCorpus.Proofs.Number.Rounding
import RegexCorpus.Proofs.Run

/-!
# JSON values

* `OfAtoms` — lists and objects with distinct keys, built from certain atoms;
* `IsJson` — the values of the format, built from null, truth values, whole numbers, doubles and
  strings in this way;
* `Within` — the values that keep the limits on nesting and on digits, and `FitsRoom` — the values of
  the format among them;
* `Reordered` — equality up to the order of keys, at every level.
-/

namespace RegexCorpus
open Json List

/-- The atom is no whole number of more than `digitLimit` digits. -/
def Atom.Short (a : Atom) : Prop := ∀ n, a = .int n → n.natAbs < 10 ^ Json.digitLimit

/-- The atom is no double outside the lowest form. -/
def Atom.Proper (a : Atom) : Prop := ∀ x, a = .double x → x.Proper

namespace Value

variable {xs : List Value} {ms : Members} {v w : Value} {n room level : Nat}
  {a : Atom}

/-- A property of every value whose parts have it is a property of all values. -/
theorem parts_induction {P : Value → Prop} (hatom : ∀ a, P (.atom a))
    (hlist : ∀ xs, (∀ x ∈ xs, P x) → P (.list xs))
    (hdict : ∀ es : Entries, (∀ e ∈ es, P e.2) → P (.dict es)) : ∀ v, P v
  | .atom a => hatom a
  | .list xs => hlist xs fun x _ => parts_induction hatom hlist hdict x
  | .dict es => hdict es fun e _ => parts_induction hatom hlist hdict e.2
decreasing_by
  · have := sizeOf_lt_of_mem ‹x ∈ xs›
    simp only [Value.list.sizeOf_spec]
    omega
  · have := sizeOf_lt_of_mem ‹e ∈ es›
    obtain ⟨k, v⟩ := e
    simp only [Value.dict.sizeOf_spec, Prod.mk.sizeOf_spec] at this ⊢
    omega

/-- Lists and objects with distinct keys, built from atoms with the property. -/
inductive OfAtoms (P : Atom → Prop) : Value → Prop
  | atom {a : Atom} (h : P a) : OfAtoms P (.atom a)
  | list {xs : List Value} (h : ∀ x ∈ xs, OfAtoms P x) : OfAtoms P (.list xs)
  | object {ms : Members} (hkeys : (ms.map Prod.fst).Nodup)
      (h : ∀ m ∈ ms, OfAtoms P m.2) : OfAtoms P (.object ms)

/-- The values of the JSON format. -/
abbrev IsJson : Value → Prop := OfAtoms Atom.Proper

/-- At most `n` lists and dictionaries stand inside one another, and whole numbers are short. -/
inductive Within : Nat → Value → Prop
  | atom {n : Nat} {a : Atom} (h : a.Short) : Within n (.atom a)
  | list {n : Nat} {xs : List Value} (h : ∀ x ∈ xs, Within n x) : Within (n + 1) (.list xs)
  | dict {n : Nat} {es : Entries} (hkeys : ∀ e ∈ es, e.1.Short) (h : ∀ e ∈ es, Within n e.2) :
      Within (n + 1) (.dict es)

/-- The value can be written where `room` levels are left. -/
structure FitsRoom (room : ℕ) (v : Value) : Prop where
  isJson : IsJson v
  within : Within room v

/-- The value can stand on a line with `level` lists and objects around it. -/
abbrev FitsAt (level : Nat) (v : Value) (room : Nat := Json.nestingLimit) : Prop :=
  FitsRoom (room - level) v

/-- Equality up to the order of keys: items agree place by place, members agree key by key. -/
inductive Reordered : Value → Value → Prop
  | atom (a : Atom) : Reordered (.atom a) (.atom a)
  | list {xs ys : List Value} (hlength : xs.length = ys.length)
      (h : ∀ (i : Nat) x y, xs[i]? = some x → ys[i]? = some y → Reordered x y) :
      Reordered (.list xs) (.list ys)
  | dict {es fs : Entries} (hkeys : (es.map Prod.fst).Perm (fs.map Prod.fst))
      (h : ∀ k v w, (k, v) ∈ es → (k, w) ∈ fs → Reordered v w) : Reordered (.dict es) (.dict fs)

/-! ### Parts of JSON values -/

theorem object_injective : Function.Injective object := by
  intro ms ns h
  have hentry : Function.Injective fun m : String × Value => (Atom.str m.1, m.2) := by
    rintro ⟨k, v⟩ ⟨l, w⟩ he
    simpa using he
  exact hentry.list_map (Value.dict.inj h)

@[simp] theorem proper_null : Atom.null.Proper := by simp [Atom.Proper]

@[simp] theorem proper_bool (b : Bool) : (Atom.bool b).Proper := by simp [Atom.Proper]

@[simp] theorem proper_int (n : Int) : (Atom.int n).Proper := by simp [Atom.Proper]

@[simp] theorem proper_str (s : String) : (Atom.str s).Proper := by simp [Atom.Proper]

@[simp] theorem proper_double {x : Double} : (Atom.double x).Proper ↔ x.Proper := by
  simp [Atom.Proper]

section
variable {P : Atom → Prop}

@[simp] theorem ofAtoms_atom {a : Atom} : OfAtoms P (.atom a) ↔ P a := ⟨fun | .atom h => h, .atom⟩

@[simp] theorem ofAtoms_list {xs : List Value} : OfAtoms P (.list xs) ↔ ∀ x ∈ xs, OfAtoms P x :=
  ⟨fun | .list h => h, .list⟩

@[simp] theorem ofAtoms_object {ms : Members} :
    OfAtoms P (.object ms) ↔ (ms.map Prod.fst).Nodup ∧ ∀ m ∈ ms, OfAtoms P m.2 := by
  refine ⟨fun h => ?_, fun h => .object h.1 h.2⟩
  generalize hv : object ms = v at h
  cases h with
  | object hkeys h =>
    rw [object_injective hv]
    exact ⟨hkeys, h⟩
  | _ => simp [object] at hv

end

/-! ### Limits -/

@[simp] theorem short_null : Atom.null.Short := by simp [Atom.Short]

@[simp] theorem short_bool (b : Bool) : (Atom.bool b).Short := by simp [Atom.Short]

@[simp] theorem short_str (s : String) : (Atom.str s).Short := by simp [Atom.Short]

theorem short_int {n : Int} : (Atom.int n).Short ↔ n.natAbs < 10 ^ digitLimit := by
  simp [Atom.Short]

theorem short_of_digits {n : Int} {k : Nat} (h : n.natAbs < 10 ^ k) (hk : k ≤ digitLimit) :
    (Atom.int n).Short :=
  short_int.mpr (Nat.lt_of_lt_of_le h (Nat.pow_le_pow_right (by decide) hk))

theorem short_digit {n : Int} (h : n.natAbs < 10) : (Atom.int n).Short :=
  short_of_digits (k := 1) h (by decide)

@[simp] theorem within_atom : Within n (.atom a) ↔ a.Short :=
  ⟨fun | .atom h => h, .atom⟩

theorem checkAtom_eq_ok : checkAtom a = .ok () ↔ a.Short := by
  cases a with
  | int n =>
    have hdigits := Nat.length_toDigits_le_iff (b := 10) (n := n.natAbs) (k := digitLimit)
      (by decide) (by decide)
    simp only [checkAtom, Atom.Short, Atom.int.injEq, forall_eq']
    split_ifs with h
    · simp only [false_iff]
      omega
    · simp only [true_iff]
      omega
  | _ => simp [checkAtom, Atom.Short]

theorem checkItems_eq_ok :
    checkItems room xs = .ok () ↔ ∀ x ∈ xs, checkLimits room x = .ok () := by
  induction xs with
  | nil => simp [checkItems]
  | cons x xs ih => simp [checkItems, Outcome.check_bind_eq_ok, ih]

theorem checkEntries_eq_ok {es : Entries} :
    checkEntries room es = .ok () ↔
      ∀ e ∈ es, checkAtom e.1 = .ok () ∧ checkLimits room e.2 = .ok () := by
  induction es with
  | nil => simp [checkEntries]
  | cons e es ih => simp [checkEntries, Outcome.check_bind_eq_ok, ih, and_assoc]

@[simp] theorem within_list : Within (n + 1) (.list xs) ↔ ∀ x ∈ xs, Within n x :=
  ⟨fun | .list h => h, .list⟩

theorem within_dict {es : Entries} :
    Within (n + 1) (.dict es) ↔ ∀ e ∈ es, e.1.Short ∧ Within n e.2 :=
  ⟨fun | .dict hkeys h => fun e he => ⟨hkeys e he, h e he⟩,
    fun h => .dict (fun e he => (h e he).1) fun e he => (h e he).2⟩

@[simp] theorem within_object : Within (n + 1) (.object ms) ↔ ∀ m ∈ ms, Within n m.2 := by
  rw [object, within_dict, forall_mem_map]
  simp

theorem Within.mono {m : Nat} (hv : Within m v) (h : m ≤ n) : Within n v := by
  induction hv generalizing n with
  | atom ha => exact .atom ha
  | list _ ih =>
    cases n with
    | zero => cases h
    | succ n => exact .list fun x hx => ih x hx (Nat.le_of_succ_le_succ h)
  | dict hkeys _ ih =>
    cases n with
    | zero => cases h
    | succ n => exact .dict hkeys fun e he => ih e he (Nat.le_of_succ_le_succ h)

theorem checkLimits_eq_ok : checkLimits room v = .ok () ↔ Within room v := by
  induction v using parts_induction generalizing room with
  | hatom a =>
    rw [checkLimits, checkAtom_eq_ok, within_atom]
  | hlist xs ih =>
    cases room with
    | zero => exact ⟨fun h => by simp [checkLimits] at h, fun h => by cases h⟩
    | succ room =>
      rw [checkLimits, checkItems_eq_ok, within_list]
      exact forall₂_congr fun x hx => ih x hx
  | hdict es ih =>
    cases room with
    | zero => exact ⟨fun h => by simp [checkLimits] at h, fun h => by cases h⟩
    | succ room =>
      rw [checkLimits, checkEntries_eq_ok, within_dict]
      exact forall₂_congr fun e he => and_congr checkAtom_eq_ok (ih e he)

/-! ### Values on a line -/

theorem FitsRoom.mono {m : ℕ} (h : FitsRoom m v) (hroom : m ≤ room) : FitsRoom room v :=
  ⟨h.isJson, h.within.mono hroom⟩

theorem fitsRoom_list (h : ∀ x ∈ xs, FitsRoom room x) : FitsRoom (room + 1) (.list xs) :=
  ⟨.list fun x hx => (h x hx).isJson, .list fun x hx => (h x hx).within⟩

theorem fitsRoom_object (hkeys : (ms.map Prod.fst).Nodup)
    (h : ∀ m ∈ ms, FitsRoom room m.2) : FitsRoom (room + 1) (.object ms) :=
  ⟨.object hkeys fun m hm => (h m hm).isJson, within_object.mpr fun m hm => (h m hm).within⟩

@[simp] theorem fitsRoom_atom : FitsRoom room (.atom a) ↔ a.Proper ∧ a.Short :=
  ⟨fun h => ⟨ofAtoms_atom.mp h.isJson, within_atom.mp h.within⟩, fun h => ⟨.atom h.1, .atom h.2⟩⟩

theorem FitsRoom.null : FitsRoom room .null := by simp

theorem FitsRoom.bool (b : Bool) : FitsRoom room (.bool b) := by simp

theorem FitsRoom.int {n : Int} (h : (Atom.int n).Short) : FitsRoom room (.int n) := by simp [h]

theorem FitsRoom.digit {n : Int} (h : n.natAbs < 10) : FitsRoom room (.int n) :=
  .int (short_digit h)

theorem FitsRoom.str (s : String) : FitsRoom room (.str s) := by simp

theorem FitsAt.list (hlevel : level < room) (h : ∀ x ∈ xs, FitsAt (level + 1) x room) :
    FitsAt level (.list xs) room := by
  have hlevels : room - level = room - (level + 1) + 1 := by omega
  rw [FitsAt, hlevels]
  exact fitsRoom_list h

theorem FitsAt.object (hlevel : level < room) (hkeys : (ms.map Prod.fst).Nodup)
    (h : ∀ m ∈ ms, FitsAt (level + 1) m.2 room) : FitsAt level (.object ms) room := by
  have hlevels : room - level = room - (level + 1) + 1 := by omega
  rw [FitsAt, hlevels]
  exact fitsRoom_object hkeys h

/-! ### Order of keys -/

theorem Reordered.symm (h : Reordered v w) : Reordered w v := by
  induction h with
  | atom a => exact .atom a
  | list hlength _ ih => exact .list hlength.symm fun i y x hy hx => ih i x y hx hy
  | dict hkeys _ ih => exact .dict hkeys.symm fun k w v hw hv => ih k v w hv hw

theorem Reordered.trans {u : Value} (h : Reordered u v) (h' : Reordered v w) : Reordered u w := by
  induction h generalizing w with
  | atom a => exact h'
  | @list xs ys hlength _ ih =>
    cases h' with
    | @list _ zs hlength' h' =>
    refine .list (hlength.trans hlength') fun i x z hx hz => ?_
    have hi : i < ys.length := by
      have := (List.getElem?_eq_some_iff.mp hz).1
      omega
    exact ih i x ys[i] hx (List.getElem?_eq_getElem hi) (h' i _ z (List.getElem?_eq_getElem hi) hz)
  | @dict es fs hkeys _ ih =>
    cases h' with
    | @dict _ gs hkeys' h' =>
    refine .dict (hkeys.trans hkeys') fun k v w hv hw => ?_
    have hk : k ∈ fs.map Prod.fst := hkeys.mem_iff.mp (List.mem_map.mpr ⟨_, hv, rfl⟩)
    obtain ⟨⟨_, x⟩, hx, rfl⟩ := List.mem_map.mp hk
    exact ih _ v x hv hx (h' _ x w hx hw)

theorem Reordered.within (h : Reordered v w) (hv : Within n v) : Within n w := by
  induction h generalizing n with
  | atom a => exact hv
  | @list xs ys hlength _ ih =>
    cases hv with
    | list hv =>
    refine .list fun y hy => ?_
    obtain ⟨i, hi, rfl⟩ := getElem_of_mem hy
    exact ih i xs[i] ys[i] (by simp) (by simp) (hv _ (getElem_mem _))
  | @dict es fs hkeys _ ih =>
    cases hv with
    | dict hshort hv =>
    have hpart : ∀ f ∈ fs, ∃ v, (f.1, v) ∈ es := by
      intro f hf
      obtain ⟨⟨_, v⟩, hv, rfl⟩ := mem_map.mp (hkeys.mem_iff.mpr (mem_map_of_mem hf))
      exact ⟨v, hv⟩
    refine .dict (fun f hf => ?_) fun f hf => ?_
    · obtain ⟨v, hmem⟩ := hpart f hf
      exact hshort (f.1, v) hmem
    · obtain ⟨v, hmem⟩ := hpart f hf
      exact ih f.1 v f.2 hmem hf (hv _ hmem)

end Value
end RegexCorpus
