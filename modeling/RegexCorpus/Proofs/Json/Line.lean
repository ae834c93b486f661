import RegexCorpus.Proofs.Json.RoundTrip
import RegexCorpus.Proofs.Number.Render
import RegexCorpus.Proofs.Text.Blank
import RegexCorpus.Proofs.Text.Lines

/-!
# JSON lines

The line of an object is printable ASCII, it is read back up to the order of keys with any blanks
around it, and it is the same line for two objects exactly when they differ in the order of keys
only. An object has a line exactly when it keeps the limits.
-/

namespace RegexCorpus
open List Outcome Text

namespace Json
open Value

variable {v : Value} {line : String} {ms : Members} {room : ℕ}

/-! ### The characters of a line -/

theorem isOneLine_of_isPlain {l : String} (h : ∀ c ∈ l.toList, IsPlain c) : Text.IsOneLine l :=
  ⟨fun hc => absurd (h _ hc) (by decide), fun hc => absurd (h _ hc) (by decide)⟩

theorem isPlain_writeItems {xs : List Value} (h : ∀ x ∈ xs, ∀ c ∈ write x, IsPlain c) :
    ∀ c ∈ writeItems xs, IsPlain c := by
  induction xs with
  | nil => simp [writeItems]
  | cons x xs ih =>
    rw [forall_mem_cons] at h
    cases xs with
    | nil =>
      rw [writeItems]
      exact h.1
    | cons y ys =>
      rw [writeItems, forall_mem_append, forall_mem_cons, forall_mem_cons]
      exact ⟨h.1, by decide, by decide, ih h.2⟩

theorem isPlain_ofNumbers : OfNumbers IsPlain where
  digit c hc := by
    simp only [Char.isDigit, Bool.and_eq_true, decide_eq_true_eq, ge_iff_le,
      UInt32.le_iff_toNat_le] at hc
    exact ⟨le_trans (by decide) hc.1, lt_of_le_of_lt hc.2 (by decide)⟩
  point := by decide
  exponent := by decide
  plus := by decide
  minus := by decide

theorem isPlain_of_all {cs : List Char} (h : cs.all (fun c => decide (IsPlain c)) = true) :
    ∀ c ∈ cs, IsPlain c := by
  simpa using h

theorem isPlain_writeAtom (a : Atom) : ∀ c ∈ writeAtom a, IsPlain c := by
  cases a with
  | null => exact isPlain_of_all rfl
  | bool b => cases b <;> exact isPlain_of_all rfl
  | int n => exact isPlain_ofNumbers.ofInt n
  | double x => exact isPlain_ofNumbers.renderWith (isPlain_of_all rfl) (isPlain_of_all rfl) x
  | str s => exact fun c => isPlain_writeString

theorem isPlain_writeKey (a : Atom) : ∀ c ∈ writeKey a, IsPlain c := by
  cases a <;> exact fun c => isPlain_writeString

theorem isPlain_writeEntries {es : Entries} (h : ∀ e ∈ es, ∀ c ∈ write e.2, IsPlain c) :
    ∀ c ∈ writeEntries es, IsPlain c := by
  induction es with
  | nil => simp [writeEntries]
  | cons e es ih =>
    obtain ⟨k, v⟩ := e
    rw [forall_mem_cons] at h
    cases es with
    | nil =>
      rw [writeEntries]
      simp only [forall_mem_append, forall_mem_cons]
      exact ⟨isPlain_writeKey k, by decide, by decide, h.1⟩
    | cons f fs =>
      rw [writeEntries]
      simp only [forall_mem_append, forall_mem_cons]
      exact ⟨⟨isPlain_writeKey k, by decide, by decide, h.1⟩, by decide, by decide, ih h.2⟩

theorem isPlain_writeValue (v : Value) : ∀ c ∈ write v, IsPlain c := by
  induction v using parts_induction with
  | hatom a =>
    rw [write]
    exact isPlain_writeAtom a
  | hlist xs ih =>
    rw [write, forall_mem_append, forall_mem_cons, forall_mem_singleton]
    exact ⟨⟨by decide, isPlain_writeItems ih⟩, by decide⟩
  | hdict es ih =>
    rw [write, forall_mem_append, forall_mem_cons, forall_mem_singleton]
    exact ⟨⟨by decide, isPlain_writeEntries ih⟩, by decide⟩

theorem isPlain_toLine (h : toLine v room = .ok line) : ∀ c ∈ line.toList, IsPlain c := by
  simp only [toLine, bind_eq_ok, pure_eq_ok] at h
  obtain ⟨w, -, -, -, -, -, rfl⟩ := h
  rw [render, String.toList_ofList]
  exact isPlain_writeValue w

theorem write_dict (es : Entries) : write (.dict es) = '\x7b' :: (writeEntries es ++ ['\x7d']) := by
  simp [write]

theorem isLineChars_write (es : Entries) : isLineChars (write (.dict es)) = true := by
  have hplain := isPlain_writeValue (.dict es)
  rw [write_dict, forall_mem_cons] at hplain
  have hbreak : '\n' ∉ writeEntries es ++ ['\x7d'] := fun hn =>
    absurd (hplain.2 _ hn) (by decide)
  rw [write_dict]
  cases hcs : writeEntries es ++ ['\x7d'] with
  | nil => simp at hcs
  | cons c cs =>
    rw [isLineChars, ← hcs]
    simpa using hbreak

theorem write_object (ms : Members) :
    write (.object ms) = '\x7b' :: (writeEntries (entriesOf ms) ++ ['\x7d']) :=
  write_dict (entriesOf ms)

/-! ### Lines -/

theorem parse_render (h : IsJson v) (hlimit : Within room v) : parse (render v) room = .ok v := by
  have hback := readsBack h hlimit
  have hspace := hback.skipSpace []
  have hread := hback.readValue (fuelFor (write v)) [] (by rw [fuelFor]; omega)
    (by simp [EndsNumber])
  rw [append_nil] at hspace hread
  rw [parse, render, String.toList_ofList, hspace, hread]
  rfl

theorem trim_render (ms : Members) (pre post : String)
    (hpre : ∀ c ∈ pre.toList, isBlank c = true)
    (hpost : ∀ c ∈ post.toList, isBlank c = true) :
    trim (pre ++ render (.object ms) ++ post) = render (.object ms) := by
  have hlast : (write (.object ms)).getLast? = some '\x7d' := by
    rw [write_object, ← cons_append, getLast?_concat]
  rw [trim, String.toList_append, String.toList_append, render, String.toList_ofList,
    trimChars_append hpre hpost (by rw [write_object]; rfl) hlast rfl rfl]

theorem ofText_render (h : IsJson (.object ms)) (hlimit : Within room (.object ms))
    (pre post : String) (hpre : ∀ c ∈ pre.toList, isBlank c = true)
    (hpost : ∀ c ∈ post.toList, isBlank c = true) :
    ofText (pre ++ render (.object ms) ++ post) room = .ok (.object ms) := by
  have hline : require (isLineChars (render (.object ms)).toList) = .ok () := by
    rw [require_eq_ok, render, String.toList_ofList]
    exact isLineChars_write _
  rw [ofText, trim_render ms pre post hpre hpost, hline]
  exact parse_render h hlimit

theorem ofText_render_object (h : IsJson (.object ms)) (hlimit : Within room (.object ms)) :
    ofText (render (.object ms)) room = .ok (.object ms) := by
  simpa using ofText_render h hlimit "" "" (by simp) (by simp)

theorem exists_object_of_reordered (h : Reordered (.object ms) v) : ∃ ns, v = .object ns := by
  cases h with
  | dict hkeys =>
    obtain ⟨ns, rfl, -⟩ := exists_object_of_keys hkeys
    exact ⟨ns, rfl⟩

theorem toLine_object {P : Atom → Prop} (h : OfAtoms P (.object ms)) :
    ∃ ns, SortsTo (.object ms) (.object ns) ∧ ∀ room line, toLine (.object ms) room = .ok line ↔
      Within room (.object ms) ∧ render (.object ns) = line := by
  obtain ⟨v, hv⟩ := h.exists_sortsTo
  obtain ⟨ns, rfl⟩ := exists_object_of_reordered hv.reordered
  have hshape : isLineChars (render (.object ns)).toList = true := by
    rw [render, String.toList_ofList]
    exact isLineChars_write _
  refine ⟨ns, hv, fun room line => ?_⟩
  have hlimit : Within room (.object ns) ↔ Within room (.object ms) :=
    ⟨hv.reordered.symm.within, hv.reordered.within⟩
  rw [toLine, bind_eq_ok]
  simp only [hv.sorted, Except.ok.injEq, exists_eq_left', check_bind_eq_ok,
    checkLimits_eq_ok, hlimit, require_eq_ok, hshape, true_and, pure_eq_ok]

/-- A line on which an object stands, the keys of which may be in another order. It is written and
read with the room or with more. -/
structure IsLineOf (ms : Members) (line : String) (ns : Members)
    (room : ℕ := nestingLimit) : Prop where
  toLine : ∀ {n}, room ≤ n → toLine (.object ms) n = .ok line
  ofText : ∀ {n}, room ≤ n → ofText line n = .ok (.object ns)
  isJson : IsJson (.object ns)
  reordered : Reordered (.object ms) (.object ns)
  isPlain : ∀ c ∈ line.toList, IsPlain c
  trim : Text.trim (line ++ "\n") = line

theorem IsLineOf.parse {ns : Members} (h : IsLineOf ms line ns room) {n : ℕ} (hn : room ≤ n) :
    parse line n = .ok (.object ns) := by
  have htrim : Text.trim line = line := by
    rw [← h.trim, trim_trim]
  obtain ⟨-, hread⟩ := check_bind_eq_ok.mp (h.ofText hn)
  rwa [htrim] at hread

/-- With room for it, an object has the line that it has with other room. -/
theorem toLine_of_within {room' : ℕ} (h : IsJson (.object ms))
    (hline : toLine (.object ms) room = .ok line) (hlimit : Within room' (.object ms)) :
    toLine (.object ms) room' = .ok line := by
  obtain ⟨ns, -, hiff⟩ := toLine_object h
  exact (hiff room' line).mpr ⟨hlimit, ((hiff room line).mp hline).2⟩

/-- The line of an object is read back to the object, up to the order of keys. -/
theorem exists_isLineOf (h : IsJson (.object ms)) (hline : toLine (.object ms) room = .ok line) :
    ∃ ns, IsLineOf ms line ns room := by
  obtain ⟨ns, hns, hiff⟩ := toLine_object h
  obtain ⟨hlimit, rfl⟩ := (hiff room line).mp hline
  have hdata := hns.reordered.ofAtoms h
  have htrim := trim_render ns "" "\n" (by simp) (by simp; decide)
  rw [String.empty_append] at htrim
  exact ⟨ns, fun hn => (hiff _ _).mpr ⟨hlimit.mono hn, rfl⟩,
    fun hn => ofText_render_object hdata (hns.reordered.within (hlimit.mono hn)), hdata,
    hns.reordered, isPlain_toLine hline, htrim⟩

theorem exists_line (h : FitsRoom room (.object ms)) :
    ∃ line ns, IsLineOf ms line ns room := by
  obtain ⟨ns, -, hiff⟩ := toLine_object h.isJson
  exact ⟨_, exists_isLineOf h.isJson ((hiff room _).mpr ⟨h.within, rfl⟩)⟩

/-- Lists inside one another, `n + 1` of them. -/
def nested : Nat → Value
  | 0 => .list []
  | n + 1 => .list [nested n]

theorem isJson_nested (n : Nat) : IsJson (nested n) := by
  induction n with
  | zero => exact .list (by simp)
  | succ n ih => exact .list (by simpa using ih)

theorem not_within_nested (n : Nat) : ¬Within n (nested n) := by
  induction n with
  | zero => exact fun h => by cases h
  | succ n ih =>
    intro h
    cases h with
    | list h => exact ih (h _ (by simp))

end Json
end RegexCorpus
