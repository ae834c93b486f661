import RegexCorpus.Proofs.Json.Line

/-!
# What the reader gives

Whatever text is read, its value is data within the limits: whole numbers are short, doubles are in
lowest form, the keys of an object are distinct texts, and no more lists and objects stand inside
one another than there was room for. So what was read can be written again. Nor is an object larger
than the text from which it was read allows.
-/

namespace RegexCorpus
open List Outcome Entries

/-! ### Repeated keys -/

variable {ms : Members}

/-- Setting a key of an object keeps the keys distinct, and brings in no other value. -/
theorem Entries.set_members (hkeys : (ms.map Prod.fst).Nodup) (k : String) (v : Value) :
    ∃ ns, set (.str k) v (entriesOf ms) = entriesOf ns ∧ (ns.map Prod.fst).Nodup ∧
      ∀ n ∈ ns, n ∈ ms ∨ n = (k, v) := by
  induction ms with
  | nil => exact ⟨[(k, v)], rfl, by simp, by simp⟩
  | cons m ms ih =>
    rw [map_cons, nodup_cons] at hkeys
    rw [entriesOf_cons, set_cons_str]
    by_cases hm : m.1 = k
    · refine ⟨(m.1, v) :: ms, ?_, ?_, ?_⟩
      · rw [if_pos (by rw [hm])]
        rfl
      · rw [map_cons, nodup_cons]
        exact hkeys
      · rw [forall_mem_cons]
        exact ⟨.inr (by rw [hm]), fun n hn => .inl (mem_cons_of_mem _ hn)⟩
    · obtain ⟨ns, hset, hnodup, hmem⟩ := ih hkeys.2
      refine ⟨m :: ns, ?_, ?_, ?_⟩
      · rw [if_neg (by simpa using hm), hset]
        rfl
      · rw [map_cons, nodup_cons]
        refine ⟨fun hn => ?_, hnodup⟩
        obtain ⟨n, hn, hkey⟩ := mem_map.mp hn
        rcases hmem n hn with hn | rfl
        · exact hkeys.1 (hkey ▸ mem_map_of_mem hn)
        · exact hm hkey.symm
      · rw [forall_mem_cons]
        refine ⟨.inl mem_cons_self, fun n hn => ?_⟩
        exact (hmem n hn).imp_left (mem_cons_of_mem _)

theorem Entries.foldl_set_members (ps : Members) (hkeys : (ms.map Prod.fst).Nodup) :
    ∃ ns, (entriesOf ps).foldl (fun es p => set p.1 p.2 es) (entriesOf ms) = entriesOf ns ∧
      (ns.map Prod.fst).Nodup ∧ ∀ n ∈ ns, n ∈ ms ∨ n ∈ ps := by
  induction ps generalizing ms with
  | nil => exact ⟨ms, rfl, hkeys, fun n hn => .inl hn⟩
  | cons p ps ih =>
    obtain ⟨ms', hset, hnodup, hmem⟩ := set_members hkeys p.1 p.2
    obtain ⟨ns, hfold, hnodup', hmem'⟩ := ih hnodup
    refine ⟨ns, ?_, hnodup', fun n hn => ?_⟩
    · rw [entriesOf_cons, foldl_cons, hset, hfold]
    · rcases hmem' n hn with h | h
      · refine (hmem n h).imp_right fun hn => ?_
        rw [hn]
        exact mem_cons_self
      · exact .inr (mem_cons_of_mem _ h)

theorem Entries.ofPairs_members (ps : Members) :
    ∃ ns, ofPairs (entriesOf ps) = entriesOf ns ∧ (ns.map Prod.fst).Nodup ∧
      ∀ n ∈ ns, n ∈ ps := by
  have hnil : (([] : Members).map Prod.fst).Nodup := nodup_nil
  obtain ⟨ns, hfold, hnodup, hmem⟩ := foldl_set_members ps hnil
  exact ⟨ns, hfold, hnodup, fun n hn => (hmem n hn).resolve_left not_mem_nil⟩

namespace Json
open Value

variable {v : Value} {s : String}

/-! ### Numbers and fixed values -/

theorem natOfDigits_lt {ds : List Char} (h : ∀ c ∈ ds, isDigit c = true) :
    natOfDigits ds < 10 ^ ds.length := by
  induction ds using List.reverseRecOn with
  | nil => simp [natOfDigits]
  | append_singleton ds c ih =>
    rw [forall_mem_append] at h
    have hdigit : natOfDigits [c] ≤ 9 := by
      have hc := h.2 c (by simp)
      simp only [isDigit, Bool.and_eq_true, decide_eq_true_eq, Char.le_def,
        UInt32.le_iff_toNat_le] at hc
      have hnine : c.toNat ≤ 57 := hc.2
      simp only [natOfDigits, foldl_cons, foldl_nil]
      have hzero : '0'.toNat = 48 := rfl
      omega
    have hprefix := ih h.1
    rw [natOfDigits_append, length_append, length_singleton, pow_succ]
    omega

theorem isDigit_of_readWhole? {cs whole rest : List Char}
    (h : readWhole? cs = some (whole, rest)) : ∀ c ∈ whole, isDigit c = true := by
  cases cs with
  | nil => simp [readWhole?] at h
  | cons d ds =>
    rw [readWhole?] at h
    split_ifs at h with hzero hdigit
    · obtain ⟨rfl, -⟩ := Prod.mk.inj (Option.some.inj h)
      simp [isDigit]
    · obtain ⟨rfl, -⟩ := Prod.mk.inj (Option.some.inj h)
      rw [forall_mem_cons]
      exact ⟨hdigit, fun c hc => mem_takeWhile_imp hc⟩

def IsPlainAtom (v : Value) : Prop := ∃ a : Atom, v = .atom a ∧ a.Proper ∧ a.Short

theorem isPlainAtom_double {x : Double} (h : x.Proper) : IsPlainAtom (.double x) :=
  ⟨.double x, rfl, proper_double.mpr h, by simp [Atom.Short]⟩

theorem readNumber_atom {negative : Bool} {cs rest : List Char}
    (h : readNumber negative cs = .ok (v, rest)) : IsPlainAtom v := by
  unfold readNumber at h
  split at h
  · cases h
  · next whole rest' hwhole =>
    dsimp only at h
    split at h
    · cases h
      exact isPlainAtom_double (Double.proper_ofDecimal _ _ _)
    · by_cases hfraction : (!(readFraction rest').1.isEmpty) = true
      · rw [if_pos hfraction] at h
        cases h
        exact isPlainAtom_double (Double.proper_ofDecimal _ _ _)
      · rw [if_neg hfraction] at h
        by_cases hlong : whole.length > digitLimit
        · rw [if_pos hlong] at h
          cases h
        · -- the digits of the whole part bound the number
          have hlt : natOfDigits whole < 10 ^ digitLimit :=
            (natOfDigits_lt (isDigit_of_readWhole? hwhole)).trans_le
              (Nat.pow_le_pow_right (by decide) (not_lt.mp hlong))
          rw [if_neg hlong] at h
          cases h
          refine ⟨_, rfl, proper_int _, short_int.mpr ?_⟩
          cases negative <;> simpa using hlt

theorem readScalar_atom {cs rest : List Char} (h : readScalar cs = .ok (v, rest)) :
    IsPlainAtom v := by
  unfold readScalar at h
  split at h
  · next r hconstant =>
    obtain ⟨c, hc, rfl⟩ := Option.map_eq_some_iff.mp hconstant
    have hmem := mem_of_find?_eq_some hc
    cases h
    simp only [constants, mem_cons, not_mem_nil, or_false] at hmem
    rcases hmem with rfl | rfl | rfl | rfl | rfl | rfl
    · exact ⟨_, rfl, proper_null, short_null⟩
    · exact ⟨_, rfl, proper_bool _, short_bool _⟩
    · exact ⟨_, rfl, proper_bool _, short_bool _⟩
    · exact isPlainAtom_double trivial
    · exact isPlainAtom_double trivial
    · exact isPlainAtom_double trivial
  · split at h
    · exact readNumber_atom h
    · exact readNumber_atom h

/-! ### Lists and objects -/

variable {xs : List Value}

theorem IsPlainAtom.fitsRoom {room : ℕ} (h : IsPlainAtom v) : FitsRoom room v := by
  obtain ⟨a, rfl, hproper, hshort⟩ := h
  exact ⟨.atom hproper, .atom hshort⟩

theorem fitsRoom_empty (room : ℕ) : FitsRoom (room + 1) (.object []) :=
  fitsRoom_object (by simp) (by simp)

theorem fitsRoom_ofPairs {room : ℕ} {ps : Members}
    (h : ∀ p ∈ ps, FitsRoom room p.2) :
    FitsRoom (room + 1) (.dict (ofPairs (entriesOf ps))) := by
  obtain ⟨ns, hns, hnodup, hmem⟩ := ofPairs_members ps
  rw [hns]
  exact fitsRoom_object hnodup fun n hn => h n (hmem n hn)

/-- Every dictionary in the value has at most `n` entries. -/
inductive Narrow (n : ℕ) : Value → Prop
  | atom (a : Atom) : Narrow n (.atom a)
  | list {xs : List Value} (h : ∀ x ∈ xs, Narrow n x) : Narrow n (.list xs)
  | dict {es : Entries} (hlength : es.length ≤ n) (h : ∀ e ∈ es, Narrow n e.2) :
      Narrow n (.dict es)

theorem Narrow.mono {m n : ℕ} (hv : Narrow m v) (h : m ≤ n) : Narrow n v := by
  induction hv with
  | atom a => exact .atom a
  | list _ ih => exact .list ih
  | dict hlength _ ih => exact .dict (hlength.trans h) ih

/-- A value that was read with this much fuel where `room` levels were left. Every member of an
object spends fuel. -/
structure ReadWith (fuel room : ℕ) (v : Value) : Prop extends FitsRoom room v where
  narrow : Narrow fuel v

theorem ReadWith.succ {fuel room : ℕ} (h : ReadWith fuel room v) : ReadWith (fuel + 1) room v :=
  ⟨h.toFitsRoom, h.narrow.mono fuel.le_succ⟩

theorem readWith_atom {fuel room : ℕ} (h : IsPlainAtom v) : ReadWith fuel room v := by
  refine ⟨h.fitsRoom, ?_⟩
  obtain ⟨a, rfl, -⟩ := h
  exact .atom a

theorem readWith_list {fuel room : ℕ} (h : ∀ x ∈ xs, ReadWith fuel room x) :
    ReadWith fuel (room + 1) (.list xs) :=
  ⟨fitsRoom_list fun x hx => (h x hx).toFitsRoom, .list fun x hx => (h x hx).narrow⟩

theorem readWith_ofPairs {fuel room : ℕ} {ps : Members} (hlength : ps.length ≤ fuel)
    (h : ∀ p ∈ ps, ReadWith fuel room p.2) :
    ReadWith fuel (room + 1) (.dict (ofPairs (entriesOf ps))) := by
  refine ⟨fitsRoom_ofPairs fun p hp => (h p hp).toFitsRoom, ?_⟩
  obtain ⟨ns, hns, hnodup, hmem⟩ := ofPairs_members ps
  -- repeated keys can only make the object smaller
  have hsmaller : ns.length ≤ ps.length := (hnodup.of_map.subperm hmem).length_le
  rw [hns]
  refine .dict ?_ fun e he => ?_
  · rw [entriesOf, length_map]
    exact hsmaller.trans hlength
  · obtain ⟨n, hn, rfl⟩ := mem_map.mp he
    exact (h n (hmem n hn)).narrow

/-- What the readers give when they have this much fuel. -/
structure ReadsData (fuel : ℕ) : Prop where
  value : ∀ {room cs v rest}, readValue fuel room cs = .ok (v, rest) → ReadWith fuel room v
  items : ∀ {room cs xs rest}, readItems fuel room cs = .ok (xs, rest) →
    ∀ x ∈ xs, ReadWith fuel room x
  members : ∀ {room cs es rest}, readMembers fuel room cs = .ok (es, rest) →
    ∃ ps : Members, es = entriesOf ps ∧ ps.length ≤ fuel ∧
      ∀ p ∈ ps, ReadWith fuel room p.2

section
variable {fuel room : ℕ} {cs rest : List Char} (ih : ReadsData fuel)
include ih

theorem ReadsData.readValue_succ {v : Value}
    (h : readValue (fuel + 1) room cs = .ok (v, rest)) : ReadWith (fuel + 1) room v := by
  rw [readValue.eq_def] at h
  split at h
  · cases ‹_›
  · cases ‹fuel + 1 = _›
    dsimp only at h
    split at h
    · -- a string
      obtain ⟨⟨s, rest'⟩, -, h⟩ := bind_eq_ok.mp h
      cases h
      exact readWith_atom ⟨_, rfl, proper_str s, short_str s⟩
    · cases h
    · -- a list
      split at h
      · cases h
        exact readWith_list (by simp)
      · obtain ⟨⟨xs, rest'⟩, hitems, h⟩ := bind_eq_ok.mp h
        cases h
        exact (readWith_list (ih.items hitems)).succ
    · cases h
    · -- an object
      split at h
      · cases h
        exact ⟨fitsRoom_empty _, .dict (Nat.zero_le _) (by simp)⟩
      · obtain ⟨⟨es, rest'⟩, hmembers, h⟩ := bind_eq_ok.mp h
        obtain ⟨ps, rfl, hlength, hps⟩ := ih.members hmembers
        cases h
        exact (readWith_ofPairs hlength hps).succ
    · exact readWith_atom (readScalar_atom h)

theorem ReadsData.readItems_succ (h : readItems (fuel + 1) room cs = .ok (xs, rest)) :
    ∀ x ∈ xs, ReadWith (fuel + 1) room x := by
  rw [readItems] at h
  obtain ⟨⟨x, rest'⟩, hx, h⟩ := bind_eq_ok.mp h
  dsimp only at h
  split at h
  · cases h
    simpa using (ih.value hx).succ
  · obtain ⟨⟨ys, rest'⟩, hys, h⟩ := bind_eq_ok.mp h
    cases h
    rw [forall_mem_cons]
    exact ⟨(ih.value hx).succ, fun y hy => (ih.items hys y hy).succ⟩
  · cases h

theorem ReadsData.readMembers_succ {es : Entries}
    (h : readMembers (fuel + 1) room cs = .ok (es, rest)) :
    ∃ ps : Members, es = entriesOf ps ∧ ps.length ≤ fuel + 1 ∧
      ∀ p ∈ ps, ReadWith (fuel + 1) room p.2 := by
  rw [readMembers.eq_def] at h
  split at h
  · cases ‹_›
  · cases ‹fuel + 1 = _›
    dsimp only at h
    split at h
    · obtain ⟨⟨k, rest'⟩, -, h⟩ := bind_eq_ok.mp h
      dsimp only at h
      split at h
      · obtain ⟨⟨v, rest'⟩, hv, h⟩ := bind_eq_ok.mp h
        dsimp only at h
        split at h
        · cases h
          exact ⟨[(k, v)], rfl, by simp, by simpa using (ih.value hv).succ⟩
        · obtain ⟨⟨es', rest'⟩, hes, h⟩ := bind_eq_ok.mp h
          obtain ⟨ps, rfl, hlength, hps⟩ := ih.members hes
          cases h
          refine ⟨(k, v) :: ps, rfl, Nat.succ_le_succ hlength, ?_⟩
          rw [forall_mem_cons]
          exact ⟨(ih.value hv).succ, fun p hp => (hps p hp).succ⟩
        · cases h
      · cases h
    · cases h

end

theorem readsData (fuel : ℕ) : ReadsData fuel := by
  induction fuel with
  | zero =>
    constructor <;> intro _ _ _ _ h
    · simp [readValue] at h
    · simp [readItems] at h
    · simp [readMembers] at h
  | succ fuel ih => exact ⟨ih.readValue_succ, ih.readItems_succ, ih.readMembers_succ⟩

/-! ### Texts -/

variable {room : ℕ}

theorem readWith_of_parse (h : parse s room = .ok v) :
    ReadWith (fuelFor (skipSpace s.toList)) room v := by
  unfold parse at h
  obtain ⟨⟨w, rest⟩, hw, h⟩ := bind_eq_ok.mp h
  dsimp only at h
  split_ifs at h
  cases h
  exact (readsData _).value hw

theorem parse_sound (h : parse s room = .ok v) : FitsRoom room v :=
  (readWith_of_parse h).toFitsRoom

/-- The length of a text bounds the size of the objects in it. -/
theorem narrow_of_parse (h : parse s room = .ok v) : Narrow (2 * s.length + 2) v := by
  have hlength : (skipSpace s.toList).length ≤ s.length :=
    (dropWhile_sublist isSpace).length_le.trans_eq String.length_toList
  refine (readWith_of_parse h).narrow.mono ?_
  rw [fuelFor]
  omega

theorem readValue_brace {fuel room : ℕ} {cs rest : List Char}
    (h : readValue fuel room ('\x7b' :: cs) = .ok (v, rest)) : ∃ es, v = .dict es := by
  cases fuel with
  | zero => simp [readValue] at h
  | succ fuel =>
    cases room with
    | zero => simp [readValue] at h
    | succ room =>
      rw [readValue] at h
      split at h
      · cases h
        exact ⟨_, rfl⟩
      · obtain ⟨⟨es, rest'⟩, -, h⟩ := bind_eq_ok.mp h
        cases h
        exact ⟨_, rfl⟩

theorem exists_brace_of_isLineChars {cs : List Char} (h : isLineChars cs = true) :
    ∃ cs', cs = '\x7b' :: cs' := by
  unfold isLineChars at h
  split at h
  · exact ⟨_, rfl⟩
  · cases h

theorem ofText_sound (h : ofText s room = .ok v) :
    ∃ ms, v = .object ms ∧ FitsRoom room (.object ms) := by
  obtain ⟨hline, hparse⟩ := check_bind_eq_ok.mp h
  rw [require_eq_ok] at hline
  obtain ⟨cs, hcs⟩ := exists_brace_of_isLineChars hline
  obtain ⟨es, rfl⟩ : ∃ es, v = .dict es := by
    unfold parse at hparse
    rw [hcs, skipSpace_cons rfl] at hparse
    obtain ⟨⟨w, rest⟩, hw, hparse⟩ := bind_eq_ok.mp hparse
    dsimp only at hparse
    split_ifs at hparse
    cases hparse
    exact readValue_brace hw
  have hfits := parse_sound hparse
  obtain ⟨ms, hms⟩ : ∃ ms, Value.dict es = .object ms := by
    cases hfits.isJson with
    | object => exact ⟨_, rfl⟩
  rw [hms] at hfits ⊢
  exact ⟨ms, rfl, hfits⟩

end Json
end RegexCorpus
