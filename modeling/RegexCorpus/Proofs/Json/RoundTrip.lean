import RegexCorpus.Proofs.Json.Double
import RegexCorpus.Proofs.Json.Sorted
import RegexCorpus.Proofs.Value

/-!
# Reading what was written

The reader takes back every value within the limits from its text, fractions among them, at any
place of a longer text. The text is printable ASCII. Reading a list or an object spends fuel on each item and on each
level; twice the length of the text is always enough.
-/

namespace RegexCorpus
open List

/-! ### Distinct keys -/

theorem Entries.set_of_not_mem {es : Entries} {k : String} (v : Value)
    (h : Atom.str k ∉ es.map Prod.fst) : Entries.set (.str k) v es = es ++ [(.str k, v)] := by
  induction es with
  | nil => rfl
  | cons e es ih =>
    obtain ⟨a, w⟩ := e
    simp only [map_cons, mem_cons, not_or] at h
    rw [set_cons_str, if_neg (Ne.symm h.1), ih h.2, cons_append]

theorem Entries.foldl_set {es : Entries} {ms : Members}
    (h : (es.map Prod.fst ++ (entriesOf ms).map Prod.fst).Nodup) :
    (entriesOf ms).foldl (fun es p => Entries.set p.1 p.2 es) es = es ++ entriesOf ms := by
  induction ms generalizing es with
  | nil => simp
  | cons m ms ih =>
    have hnew : Atom.str m.1 ∉ es.map Prod.fst := by
      simp only [map_cons, nodup_append, mem_cons] at h
      intro hm
      exact h.2.2 _ hm _ (.inl rfl) rfl
    rw [entriesOf_cons, foldl_cons, set_of_not_mem m.2 hnew, ih]
    · simp
    · simpa using h

theorem Entries.ofPairs_entriesOf {ms : Members} (h : (ms.map Prod.fst).Nodup) :
    Entries.ofPairs (entriesOf ms) = entriesOf ms := by
  have hnodup : ((entriesOf ms).map Prod.fst).Nodup := by
    rw [Value.keys_entriesOf]
    exact h.map fun _ _ h => Atom.str.inj h
  rw [ofPairs, foldl_set, nil_append]
  simpa using hnodup

namespace Json

/-! ### First characters -/

/-- The character can begin a value. -/
def Begins (c : Char) : Prop := isSpace c = false ∧ c ≠ ']' ∧ c ≠ '\x7d'

instance (c : Char) : Decidable (Begins c) := inferInstanceAs (Decidable (_ ∧ _ ∧ _))

/-- The character can begin a value that is no string, list or object. -/
def BeginsScalar (c : Char) : Prop := Begins c ∧ c ≠ '"' ∧ c ≠ '[' ∧ c ≠ '\x7b'

instance (c : Char) : Decidable (BeginsScalar c) := inferInstanceAs (Decidable (_ ∧ _))

theorem beginsScalar_digit {c : Char} (h : isDigit c = true) : BeginsScalar c := by
  have hne (d : Char) (hd : isDigit d = false) : c ≠ d := by
    rintro rfl
    simp [h] at hd
  have hspace : isSpace c = false := by
    simp [isSpace, hne ' ' rfl, hne '\t' rfl, hne '\n' rfl, hne '\r' rfl]
  exact ⟨⟨hspace, hne _ rfl, hne _ rfl⟩, hne _ rfl, hne _ rfl, hne _ rfl⟩

theorem writeAtom_int_begins (n : Int) : ∃ c cs, writeAtom (.int n) = c :: cs ∧ BeginsScalar c := by
  cases n with
  | ofNat n =>
    rw [Int.ofNat_eq_natCast, writeAtom_natCast]
    cases hd : Nat.toDigits 10 n with
    | nil => exact absurd hd Nat.toDigits_ne_nil
    | cons d ds =>
      exact ⟨d, ds, rfl, beginsScalar_digit (isDigit_of_mem_toDigits (hd ▸ mem_cons_self))⟩
  | negSucc n => exact ⟨'-', _, writeAtom_negSucc n, by decide⟩

theorem writeAtom_double_begins {x : Double} (hx : x.Proper) :
    ∃ c cs, writeAtom (.double x) = c :: cs ∧ BeginsScalar c := by
  cases x with
  | nan => exact ⟨'N', _, rfl, by decide⟩
  | infinite s => cases s with
    | false => exact ⟨'I', _, rfl, by decide⟩
    | true => exact ⟨'-', _, rfl, by decide⟩
  | finite s m e =>
    obtain ⟨c, cs, htext, hdigit⟩ := magnitudeText_begins hx
    rw [writeAtom_finite, htext]
    cases s with
    | false => exact ⟨c, cs, rfl, beginsScalar_digit hdigit⟩
    | true => exact ⟨'-', c :: cs, rfl, by decide⟩

theorem skipSpace_cons {c : Char} {cs : List Char} (h : isSpace c = false) :
    skipSpace (c :: cs) = c :: cs := by
  simp [skipSpace, h]

theorem skipSpace_blank (cs : List Char) : skipSpace (' ' :: cs) = skipSpace cs := by
  simp [skipSpace, isSpace]

/-! ### Steps of the reader -/

section
variable {fuel room : Nat} {x v : Value} {xs : List Value} {k : String} {ms : Entries}
  {c : Char} {cs rest : List Char}

theorem readItems_last (h : readValue fuel room cs = .ok (x, ']' :: rest)) :
    readItems (fuel + 1) room cs = .ok ([x], rest) := by
  rw [readItems, h]
  rfl

theorem readItems_more {cs' : List Char} (h : readValue fuel room cs = .ok (x, ',' :: ' ' :: cs'))
    (h' : readItems fuel room (skipSpace cs') = .ok (xs, rest)) :
    readItems (fuel + 1) room cs = .ok (x :: xs, rest) := by
  rw [← skipSpace_blank] at h'
  rw [readItems]
  refine Outcome.bind_eq_ok.mpr ⟨_, h, ?_⟩
  exact Outcome.bind_eq_ok.mpr ⟨_, h', rfl⟩

theorem readValue_items (hc : Begins c) (h : readItems fuel room (c :: cs) = .ok (xs, rest)) :
    readValue (fuel + 1) (room + 1) ('[' :: c :: cs) = .ok (.list xs, rest) := by
  have hclose : ∀ rest, c :: cs = ']' :: rest → False := fun _ he => hc.2.1 (cons.inj he).1
  rw [readValue, skipSpace_cons hc.1]
  split
  · exact absurd ‹_› (hclose _)
  · rw [h]
    rfl

theorem readMembers_last {cs' : List Char} (hk : readString cs = .ok (k, ':' :: ' ' :: cs'))
    (hv : readValue fuel room (skipSpace cs') = .ok (v, '\x7d' :: rest)) :
    readMembers (fuel + 1) room ('"' :: cs) = .ok ([(.str k, v)], rest) := by
  rw [← skipSpace_blank] at hv
  rw [readMembers]
  refine Outcome.bind_eq_ok.mpr ⟨_, hk, ?_⟩
  exact Outcome.bind_eq_ok.mpr ⟨_, hv, rfl⟩

theorem readMembers_more {cs' cs'' : List Char} (hk : readString cs = .ok (k, ':' :: ' ' :: cs'))
    (hv : readValue fuel room (skipSpace cs') = .ok (v, ',' :: ' ' :: cs''))
    (h : readMembers fuel room (skipSpace cs'') = .ok (ms, rest)) :
    readMembers (fuel + 1) room ('"' :: cs) = .ok ((.str k, v) :: ms, rest) := by
  rw [← skipSpace_blank] at hv h
  rw [readMembers]
  refine Outcome.bind_eq_ok.mpr ⟨_, hk, ?_⟩
  refine Outcome.bind_eq_ok.mpr ⟨_, hv, ?_⟩
  exact Outcome.bind_eq_ok.mpr ⟨_, h, rfl⟩

theorem readValue_members (h : readMembers fuel room ('"' :: cs) = .ok (ms, rest)) :
    readValue (fuel + 1) (room + 1) ('\x7b' :: '"' :: cs) =
      .ok (.dict (Entries.ofPairs ms), rest) := by
  rw [readValue, skipSpace_cons rfl]
  exact Outcome.bind_eq_ok.mpr ⟨_, h, rfl⟩

end

/-! ### Values -/

variable (m : String × Value)

theorem endsNumber_cons {c : Char} {cs : List Char} (h : c = ',' ∨ c = ']' ∨ c = '\x7d') :
    EndsNumber (c :: cs) := by
  intro d hd
  obtain rfl : c = d := by simpa using hd
  obtain rfl | rfl | rfl := h <;> decide

/-- The value is read back from its text, at any place where `room` levels are left. -/
structure ReadsBack (room : Nat) (v : Value) : Prop where
  begins : ∃ c cs, write v = c :: cs ∧ Begins c
  readValue : ∀ (fuel : Nat) (cs : List Char), 2 * (write v).length ≤ fuel → EndsNumber cs →
    readValue fuel room (write v ++ cs) = .ok (v, cs)

theorem ReadsBack.skipSpace {room : Nat} {v : Value} (h : ReadsBack room v) (cs : List Char) :
    skipSpace (write v ++ cs) = write v ++ cs := by
  obtain ⟨c, cs', hc, hb⟩ := h.begins
  rw [hc, cons_append, skipSpace_cons hb.1]

theorem writeItems_begins {room : Nat} {x : Value} (h : ReadsBack room x) (xs : List Value) :
    ∃ c cs, writeItems (x :: xs) = c :: cs ∧ Begins c := by
  obtain ⟨c, cs, hc, hb⟩ := h.begins
  cases xs with
  | nil => exact ⟨c, cs, by rw [writeItems, hc], hb⟩
  | cons y ys => exact ⟨c, _, by rw [writeItems, hc, cons_append], hb⟩

/-- The items of a list are read back up to its closing bracket. -/
theorem readItems_write {room : Nat} {x : Value} {xs : List Value}
    (h : ∀ y ∈ x :: xs, ReadsBack room y) (fuel : Nat)
    (hfuel : 2 * (writeItems (x :: xs)).length ≤ fuel) (cs : List Char) :
    readItems (fuel + 1) room (writeItems (x :: xs) ++ ']' :: cs) = .ok (x :: xs, cs) := by
  induction xs generalizing x fuel with
  | nil =>
    rw [writeItems] at hfuel ⊢
    exact readItems_last ((h x (by simp)).readValue _ _ hfuel (endsNumber_cons (by simp)))
  | cons y ys ih =>
    have htail : ∀ z ∈ y :: ys, ReadsBack room z := fun z hz => h z (mem_cons_of_mem _ hz)
    obtain ⟨c, cs', hc, hb⟩ := writeItems_begins (htail y (by simp)) ys
    -- the comma and the blank between two items pay for the step to the next one
    rw [writeItems, length_append, length_cons, length_cons] at hfuel
    rw [writeItems, append_assoc, cons_append, cons_append]
    obtain ⟨fuel, rfl⟩ : ∃ f, fuel = f + 1 := ⟨fuel - 1, by omega⟩
    refine readItems_more
      ((h x (by simp)).readValue _ _ (by omega) (endsNumber_cons (by simp))) ?_
    rw [hc, cons_append, skipSpace_cons hb.1, ← cons_append, ← hc]
    exact ih htail fuel (by omega)

/-- The text of a key, its opening quote left out. -/
def keyText (k : String) (cs : List Char) : List Char :=
  (Text.units k.toList).flatMap writeUnit ++ '"' :: ':' :: ' ' :: cs

theorem writeEntries_single (cs : List Char) :
    writeEntries (entriesOf [m]) ++ cs = '"' :: keyText m.1 (write m.2 ++ cs) := by
  simp [writeEntries, writeKey, writeString, keyText]

theorem writeEntries_cons (m n : String × Value) (ns : Members) (cs : List Char) :
    writeEntries (entriesOf (m :: n :: ns)) ++ cs =
      '"' :: keyText m.1
        (write m.2 ++ ',' :: ' ' :: (writeEntries (entriesOf (n :: ns)) ++ cs)) := by
  simp [writeEntries, writeKey, writeString, keyText]

theorem writeEntries_begins (ms : Members) (cs : List Char) :
    ∃ cs', writeEntries (entriesOf (m :: ms)) ++ cs = '"' :: cs' := by
  cases ms with
  | nil => exact ⟨_, writeEntries_single m cs⟩
  | cons n ns => exact ⟨_, writeEntries_cons m n ns cs⟩

theorem length_writeEntries_single :
    (write m.2).length ≤ (writeEntries (entriesOf [m])).length := by
  simp [writeEntries]
  omega

theorem length_writeEntries_cons (m n : String × Value) (ns : Members) :
    (write m.2).length + (writeEntries (entriesOf (n :: ns))).length <
      (writeEntries (entriesOf (m :: n :: ns))).length := by
  simp [writeEntries]
  omega

/-- The members of an object are read back up to its closing brace. -/
theorem readMembers_write {room : Nat} {m : String × Value} {ms : Members}
    (h : ∀ n ∈ m :: ms, ReadsBack room n.2) (fuel : Nat)
    (hfuel : 2 * (writeEntries (entriesOf (m :: ms))).length ≤ fuel) (cs : List Char) :
    readMembers (fuel + 1) room (writeEntries (entriesOf (m :: ms)) ++ '\x7d' :: cs) =
      .ok (entriesOf (m :: ms), cs) := by
  induction ms generalizing m fuel with
  | nil =>
    have hm := h m (by simp)
    have hlength := length_writeEntries_single m
    rw [writeEntries_single]
    refine readMembers_last (readString_units _ _) ?_
    rw [hm.skipSpace]
    exact hm.readValue _ _ (by omega) (endsNumber_cons (by simp))
  | cons n ns ih =>
    have hm := h m (by simp)
    have htail : ∀ n' ∈ n :: ns, ReadsBack room n'.2 :=
      fun n' hn => h n' (mem_cons_of_mem _ hn)
    have hlength := length_writeEntries_cons m n ns
    obtain ⟨fuel, rfl⟩ : ∃ f, fuel = f + 1 := ⟨fuel - 1, by omega⟩
    have hrest : readMembers (fuel + 1) room
        (skipSpace (writeEntries (entriesOf (n :: ns)) ++ '\x7d' :: cs)) =
          .ok (entriesOf (n :: ns), cs) := by
      obtain ⟨cs', hcs'⟩ := writeEntries_begins n ns ('\x7d' :: cs)
      rw [hcs', skipSpace_cons rfl, ← hcs']
      exact ih htail fuel (by omega)
    rw [writeEntries_cons]
    refine readMembers_more (readString_units _ _) ?_ hrest
    rw [hm.skipSpace]
    exact hm.readValue _ _ (by omega) (endsNumber_cons (by simp))

/-! ### One lemma for each kind of value -/

theorem readValue_scalar {fuel room : Nat} {c : Char} {cs : List Char} (hc : BeginsScalar c) :
    readValue (fuel + 1) room (c :: cs) = readScalar (c :: cs) := by
  obtain ⟨-, hquote, hbracket, hbrace⟩ := hc
  rw [readValue.eq_def]
  split <;> simp_all

theorem readsBack_scalar {room : Nat} {v : Value}
    (hbegins : ∃ c cs, write v = c :: cs ∧ BeginsScalar c)
    (h : ∀ cs, EndsNumber cs → readScalar (write v ++ cs) = .ok (v, cs)) : ReadsBack room v := by
  obtain ⟨c, cs, hc, hscalar⟩ := hbegins
  refine ⟨⟨c, cs, hc, hscalar.1⟩, fun fuel cs' hfuel hcs => ?_⟩
  rw [hc, length_cons] at hfuel
  obtain ⟨fuel, rfl⟩ : ∃ f, fuel = f + 1 := ⟨fuel - 1, by omega⟩
  have hread := h cs' hcs
  rw [hc, cons_append] at hread ⊢
  rw [readValue_scalar hscalar, hread]

theorem readsBack_null (room : Nat) : ReadsBack room .null :=
  readsBack_scalar ⟨'n', _, rfl, by decide⟩ fun _ _ => rfl

theorem readsBack_bool (room : Nat) (b : Bool) : ReadsBack room (.bool b) := by
  cases b with
  | false => exact readsBack_scalar ⟨'f', _, rfl, by decide⟩ fun _ _ => rfl
  | true => exact readsBack_scalar ⟨'t', _, rfl, by decide⟩ fun _ _ => rfl

theorem readsBack_int (room : Nat) {n : Int} (hn : n.natAbs < 10 ^ digitLimit) :
    ReadsBack room (.int n) :=
  readsBack_scalar (writeAtom_int_begins n) fun _ => readScalar_int hn

theorem readsBack_double (room : Nat) {x : Double} (hx : x.Proper) : ReadsBack room (.double x) :=
  readsBack_scalar (writeAtom_double_begins hx) fun _ => readScalar_double hx

theorem readsBack_str (room : Nat) (s : String) : ReadsBack room (.str s) := by
  refine ⟨⟨'"', _, rfl, by decide⟩, fun fuel cs hfuel _ => ?_⟩
  have htext : write (.str s) ++ cs =
      '"' :: ((Text.units s.toList).flatMap writeUnit ++ '"' :: cs) := by
    simp [write, writeAtom, writeString]
  have hlength : 0 < (write (.str s)).length := by simp [write, writeAtom, writeString]
  obtain ⟨fuel, rfl⟩ : ∃ f, fuel = f + 1 := ⟨fuel - 1, by omega⟩
  rw [htext, readValue, readString_units]
  rfl

theorem readsBack_list {room : Nat} {xs : List Value} (h : ∀ x ∈ xs, ReadsBack room x) :
    ReadsBack (room + 1) (.list xs) := by
  refine ⟨⟨'[', writeItems xs ++ [']'], by simp [write], by decide⟩, fun fuel cs hfuel _ => ?_⟩
  have htext : write (.list xs) ++ cs = '[' :: (writeItems xs ++ ']' :: cs) := by simp [write]
  rw [write, cons_append, length_cons, length_append] at hfuel
  obtain ⟨fuel, rfl⟩ : ∃ f, fuel = f + 2 := ⟨fuel - 2, by omega⟩
  rw [htext]
  cases xs with
  | nil => rfl
  | cons x xs =>
    obtain ⟨c, cs', hc, hb⟩ := writeItems_begins (h x (by simp)) xs
    have hitems := readItems_write h fuel (by omega) cs
    rw [hc, cons_append] at hitems ⊢
    exact readValue_items hb hitems

theorem readsBack_object {room : Nat} {ms : Members}
    (hkeys : (ms.map Prod.fst).Nodup) (h : ∀ m ∈ ms, ReadsBack room m.2) :
    ReadsBack (room + 1) (.object ms) := by
  refine ⟨⟨'\x7b', writeEntries (entriesOf ms) ++ ['\x7d'], by simp [Value.object, write],
    by decide⟩, fun fuel cs hfuel _ => ?_⟩
  have htext : write (.object ms) ++ cs =
      '\x7b' :: (writeEntries (entriesOf ms) ++ '\x7d' :: cs) := by
    simp [Value.object, write]
  have hlength : (write (.object ms)).length = (writeEntries (entriesOf ms)).length + 2 := by
    simp [Value.object, write]
  obtain ⟨fuel, rfl⟩ : ∃ f, fuel = f + 2 := ⟨fuel - 2, by omega⟩
  rw [htext]
  cases ms with
  | nil => rfl
  | cons m ms =>
    obtain ⟨cs', hcs'⟩ := writeEntries_begins m ms ('\x7d' :: cs)
    have hmembers := readMembers_write h fuel (by omega) cs
    rw [hcs'] at hmembers ⊢
    rw [readValue_members hmembers, Entries.ofPairs_entriesOf hkeys]
    rfl

theorem readsBack_atom (room : Nat) {a : Atom} (hproper : a.Proper) (hshort : a.Short) :
    ReadsBack room (.atom a) := by
  cases a with
  | null => exact readsBack_null room
  | bool b => exact readsBack_bool room b
  | int n => exact readsBack_int room (hshort n rfl)
  | double x => exact readsBack_double room (hproper x rfl)
  | str s => exact readsBack_str room s

theorem readsBack {v : Value} (h : Value.IsJson v) {room : Nat} (hroom : Value.Within room v) :
    ReadsBack room v := by
  induction h generalizing room with
  | atom hproper =>
    cases hroom with
    | atom hshort => exact readsBack_atom room hproper hshort
  | list _ ih =>
    cases hroom with
    | list hroom => exact readsBack_list fun x hx => ih x hx (hroom x hx)
  | object hkeys _ ih =>
    cases hroom with
    | dict _ hroom =>
      exact readsBack_object hkeys fun m hm => ih m hm (hroom _ (mem_map_of_mem hm))

end Json
end RegexCorpus
