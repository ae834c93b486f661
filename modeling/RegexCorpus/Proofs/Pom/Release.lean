import RegexCorpus.Pom.Release
import RegexCorpus.Proofs.Json.Value
import RegexCorpus.Proofs.Pom.Element
import RegexCorpus.Proofs.Text.Digit

/-!
# Raising the releases of a build description

Elements that were found in a description are raised one after another. Only their texts change, and
only those that name a release below the minimum.
-/

namespace RegexCorpus.Pom
open List Text

variable {ds : List Char} {n : Int}

/-! ### Texts that name a release -/

variable {version : Option Int}

/-- The text is `1.` and some digits, and goes on with none. -/
def HasDigits (t : String) (ds : List Char) : Prop :=
  ds ≠ [] ∧ (∀ c ∈ ds, Text.isDigit c = true) ∧
    ∃ rest, t.toList = '1' :: '.' :: (ds ++ rest) ∧ ∀ c ∈ rest.head?, Text.isDigit c = false

def Names (t : String) (n : Int) : Prop :=
  ∃ ds, HasDigits t ds ∧ ds.length ≤ Text.maxDigits ∧ n = Text.numberFrom 0 ds

/-- The text has too many digits to name a release. -/
def IsOverlong (t : String) : Prop := ∃ ds, HasDigits t ds ∧ Text.maxDigits < ds.length

theorem takeWhile_digits {rest : List Char} (hds : ∀ c ∈ ds, isDigit c = true)
    (hrest : ∀ c ∈ rest.head?, isDigit c = false) :
    (ds ++ rest).takeWhile isDigit = ds := by
  rw [takeWhile_append_of_pos hds]
  cases rest with
  | nil => simp
  | cons c rest => simp [hrest c rfl]

theorem release?_of_hasDigits {t : String} (h : HasDigits t ds) :
    release? t = if ds.length ≤ maxDigits then .ok (some (numberFrom 0 ds))
      else .error (.badValue "") := by
  obtain ⟨hne, hds, rest, ht, hrest⟩ := h
  simp only [release?, ht, takeWhile_digits hds hrest]
  cases ds with
  | nil => exact absurd rfl hne
  | cons c ds =>
    simp only [readNat?_of_digits hne hds]
    split_ifs <;> rfl

theorem release?_of_not_hasDigits {t : String} (h : ∀ ds, ¬HasDigits t ds) :
    release? t = .ok none := by
  unfold release?
  split
  · next cs ht =>
    split
    · rfl
    · next ds hne =>
      refine absurd ⟨hne, fun c hc => all_eq_true.mp all_takeWhile c hc,
        cs.dropWhile isDigit, ?_, fun c hc => ?_⟩ (h (cs.takeWhile isDigit))
      · rw [ht, takeWhile_append_dropWhile]
      · have hhead := head?_dropWhile_not isDigit cs
        rw [Option.mem_def.mp hc] at hhead
        exact hhead
  · rfl

theorem HasDigits.unique {t : String} {ds' : List Char} (h : HasDigits t ds) (h' : HasDigits t ds') :
    ds = ds' := by
  obtain ⟨-, hds, rest, ht, hrest⟩ := h
  obtain ⟨-, hds', rest', ht', hrest'⟩ := h'
  rw [ht, cons.injEq, cons.injEq] at ht'
  rw [← takeWhile_digits hds hrest, ht'.2.2, takeWhile_digits hds' hrest']

theorem release?_eq_some {t : String} : release? t = .ok (some n) ↔ Names t n := by
  by_cases h : ∃ ds, HasDigits t ds
  · obtain ⟨ds, hds⟩ := h
    rw [release?_of_hasDigits hds]
    constructor
    · split_ifs with hlength
      · intro h
        cases h
        exact ⟨ds, hds, hlength, rfl⟩
      · intro h
        cases h
    · rintro ⟨ds', hds', hlength, rfl⟩
      obtain rfl := hds.unique hds'
      rw [if_pos hlength]
  · rw [release?_of_not_hasDigits (not_exists.mp h)]
    refine iff_of_false (fun h => by cases h) ?_
    rintro ⟨ds, hds, -⟩
    exact h ⟨ds, hds⟩

theorem release?_of_isOverlong {t : String} (h : IsOverlong t) :
    release? t = .error (.badValue "") := by
  obtain ⟨ds, hds, hlength⟩ := h
  rw [release?_of_hasDigits hds, if_neg (Nat.not_le.mpr hlength)]

/-- A text has too many digits, or names a release, or names none. -/
theorem release?_cases (t : String) :
    IsOverlong t ∨ (∃ n, Names t n) ∨ release? t = .ok none ∧ ∀ n, ¬Names t n := by
  by_cases h : ∃ ds, HasDigits t ds
  · obtain ⟨ds, hds⟩ := h
    rcases Nat.lt_or_ge maxDigits ds.length with hlength | hlength
    · exact .inl ⟨ds, hds, hlength⟩
    · exact .inr (.inl ⟨_, ds, hds, hlength, rfl⟩)
  · refine .inr (.inr ⟨release?_of_not_hasDigits (not_exists.mp h), ?_⟩)
    rintro n ⟨ds, hds, -⟩
    exact h ⟨ds, hds⟩

theorem not_isOverlong {t : String} (h : release? t = .ok version) : ¬IsOverlong t := by
  intro hlong
  rw [release?_of_isOverlong hlong] at h
  cases h

def nameOf (n : Int) : String := "1." ++ Text.ofInt n

theorem hasDigits_nameOf (n : Nat) : HasDigits (nameOf n) (Nat.toDigits 10 n) := by
  refine ⟨Nat.toDigits_ne_nil, fun c hc => ?_, [], ?_, by simp⟩
  · exact isDigit_of_isDigit (Nat.isDigit_of_mem_toDigits (by decide) (by decide) hc)
  · rw [nameOf, String.toList_append, append_nil]
    exact congrArg ('1' :: '.' :: ·) String.toList_ofList

theorem numberFrom_toDigits {n : Nat} (h : n < 10 ^ maxDigits) :
    numberFrom 0 (Nat.toDigits 10 n) = n := by
  obtain ⟨hne, hds, -⟩ := hasDigits_nameOf n
  have hlength := (Nat.length_toDigits_le_iff (b := 10) (by decide) (by decide)).mpr h
  have hread := readNat?_toDigits h
  rwa [readNat?_of_digits hne hds, if_pos hlength, Option.some.injEq] at hread

/-- A release that is not too long is named by the text for it. -/
theorem names_nameOf (hn : 0 ≤ n) (hshort : (Atom.int n).Short) : Names (nameOf n) n := by
  obtain ⟨k, rfl⟩ := Int.eq_ofNat_of_zero_le hn
  have hk : k < 10 ^ maxDigits := by
    rw [show maxDigits = Json.digitLimit from rfl]
    exact Value.short_int.mp hshort
  refine ⟨_, hasDigits_nameOf k, (Nat.length_toDigits_le_iff (by decide) (by decide)).mpr hk, ?_⟩
  rw [numberFrom_toDigits hk]

theorem eq_of_names_nameOf {k : Int} (h : Names (nameOf n) k) : k = n := by
  obtain ⟨ds, hds, hlength, rfl⟩ := h
  cases n with
  | ofNat n =>
    obtain rfl := hds.unique (hasDigits_nameOf n)
    rw [numberFrom_toDigits ((Nat.length_toDigits_le_iff (by decide) (by decide)).mp hlength)]
    rfl
  | negSucc n =>
    -- the sign is no digit
    obtain ⟨hne, hdigits, rest, ht, -⟩ := hds
    have hsign : (nameOf (.negSucc n)).toList = '1' :: '.' :: '-' :: Nat.toDigits 10 (n + 1) := by
      simp [nameOf, ofInt, ofNat]
    cases ds with
    | nil => exact absurd rfl hne
    | cons c ds =>
      rw [hsign] at ht
      simp only [cons_append, cons.injEq, true_and] at ht
      rw [forall_mem_cons, ← ht.1] at hdigits
      exact absurd hdigits.1 (by decide)

theorem releaseText_of_short (h : (Atom.int n).Short) : releaseText (.int n) = .ok (nameOf n) := by
  rw [releaseText, Json.checkLimits, Value.checkAtom_eq_ok.mpr h]
  rfl

theorem releaseText_of_long (h : ¬(Atom.int n).Short) :
    releaseText (.int n) = .error (.badValue "") := by
  have hlong : Json.checkAtom (.int n) = .error (.badValue "") := by
    rw [← Value.checkAtom_eq_ok, Json.checkAtom] at h
    rw [Json.checkAtom]
    split_ifs at h ⊢ <;> first | rfl | exact absurd rfl h
  rw [releaseText, Json.checkLimits, hlong]
  rfl

theorem Names.nonneg {t : String} (h : Names t n) : 0 ≤ n := by
  obtain ⟨ds, -, -, rfl⟩ := h
  exact Int.natCast_nonneg _

/-! ### One element -/

section

variable {least : Int} {e : Element} {place : List Nat} {t : String}
variable {n : Int}

def NamesAt (e : Element) (place : List Nat) (n : Int) : Prop :=
  ∃ t, e.textAt place = some t ∧ Names t n

def Below (least : Int) (e : Element) (place : List Nat) : Prop :=
  ∃ n, NamesAt e place n ∧ n < least

/-- The element at a place can be raised: neither its own release nor one that replaces it has too
many digits. -/
def Fits (least : Int) (e : Element) (place : List Nat) : Prop :=
  (∀ t, e.textAt place = some t → ¬IsOverlong t) ∧ (Below least e place → (Atom.int least).Short)

def releaseAt (e : Element) (place : List Nat) : Option Int :=
  (e.textAt place).bind fun t => (release? t).toOption.join

theorem releaseAt_eq_some : releaseAt e place = some n ↔ NamesAt e place n := by
  rw [releaseAt, Option.bind_eq_some_iff, NamesAt]
  refine exists_congr fun t => and_congr_right fun _ => ?_
  rw [← release?_eq_some]
  rcases release? t with f | _ | k <;> simp [Except.toOption]

theorem release?_eq_releaseAt (ht : e.textAt place = some t) (h : ¬IsOverlong t) :
    release? t = .ok (releaseAt e place) := by
  rw [releaseAt, ht, Option.bind_some]
  rcases release?_cases t with hlong | ⟨n, hn⟩ | ⟨hnone, -⟩
  · exact absurd hlong h
  · rw [release?_eq_some.mpr hn]
    rfl
  · rw [hnone]
    rfl

theorem below_iff (ht : e.textAt place = some t) :
    Below least e place ↔ ∃ n, Names t n ∧ n < least := by
  simp [Below, NamesAt, ht]

theorem not_below_iff : ¬Below least e place ↔ ∀ n, releaseAt e place = some n → least ≤ n := by
  simp only [Below, releaseAt_eq_some, not_exists, not_and, Int.not_lt]

theorem exists_at?_of_textAt (ht : e.textAt place = some t) :
    ∃ x, e.at? place = some x ∧ releaseOf x = release? t := by
  obtain ⟨x, hx, hxt⟩ := Option.bind_eq_some_iff.mp ht
  refine ⟨x, hx, ?_⟩
  rw [releaseOf, hxt]

def readAt (place : List Nat) : Edit Element (Option Int) := do
  let some e := (← get).at? place | return none
  (releaseOf e : Outcome _)

theorem readAt_run (ht : e.textAt place = some t) (h : release? t = .ok version) :
    (readAt place).run e = (.ok version, e) := by
  obtain ⟨x, hx, hread⟩ := exists_at?_of_textAt ht
  rw [readAt, run_get_state_bind, hx]
  dsimp only
  rw [hread, h]
  rfl

theorem raiseAt_of_error {f : Fault} (ht : e.textAt place = some t) (h : release? t = .error f) :
    (raiseAt least place).run e = (.error f, e) := by
  obtain ⟨x, hx, hread⟩ := exists_at?_of_textAt ht
  rw [raiseAt, run_get_state_bind, hx]
  dsimp only
  rw [hread, h]
  rfl

/-- An element that names no release, or one that is high enough, stays as it is. -/
theorem raiseAt_of_kept (ht : e.textAt place = some t) (h : release? t = .ok version)
    (hversion : ∀ n, version = some n → least ≤ n) :
    (raiseAt least place).run e = (.ok version, e) := by
  obtain ⟨x, hx, hread⟩ := exists_at?_of_textAt ht
  rw [raiseAt, run_get_state_bind, hx]
  dsimp only
  rw [hread, run_lift_bind h]
  cases version with
  | none => exact readAt_run ht h
  | some n =>
    dsimp only
    rw [if_neg (Int.not_lt.mpr (hversion n rfl))]
    exact readAt_run ht h

theorem raiseAt_of_lt (ht : e.textAt place = some t) (h : release? t = .ok (some n))
    (hn : n < least) (hshort : (Atom.int least).Short) :
    (raiseAt least place).run e = (.ok (some least), e.setText (nameOf least) place) := by
  obtain ⟨x, hx, hread⟩ := exists_at?_of_textAt ht
  have hleast := (release?_eq_some.mp h).nonneg.trans hn.le
  have hset : (e.setText (nameOf least) place).textAt place = some (nameOf least) := by
    rw [Element.textAt_setText _ (by rw [hx]; rfl), if_pos rfl]
  rw [raiseAt, run_get_state_bind, hx]
  dsimp only
  rw [hread, run_lift_bind h]
  dsimp only
  rw [if_pos hn, releaseText_of_short hshort]
  exact readAt_run hset (release?_eq_some.mpr (names_nameOf hleast hshort))

theorem raiseAt_of_long (ht : e.textAt place = some t) (h : release? t = .ok (some n))
    (hn : n < least) (hlong : ¬(Atom.int least).Short) :
    (raiseAt least place).run e = (.error (.badValue ""), e) := by
  obtain ⟨x, hx, hread⟩ := exists_at?_of_textAt ht
  rw [raiseAt, run_get_state_bind, hx]
  dsimp only
  rw [hread, run_lift_bind h]
  dsimp only
  rw [if_pos hn, releaseText_of_long hlong]
  rfl

end

/-! ### Several elements -/

/-- One description is the other with the found elements raised that name a release below the
minimum, and is the same otherwise. -/
structure Raised (least : Int) (found : List (Option (List Nat))) (e e' : Element) : Prop where
  bare : e'.bare = e.bare
  raised : ∀ place, some place ∈ found → Below least e place → e'.textAt place = some (nameOf least)
  kept : ∀ place, ¬(some place ∈ found ∧ Below least e place) → e'.textAt place = e.textAt place

section
variable {least : Int} {found found' : List (Option (List Nat))} {e e' e'' : Element}
  {place : List Nat}

theorem raised_of_not_below (h : ∀ place, some place ∈ found → ¬Below least e place) :
    Raised least found e e where
  bare := rfl
  raised place hplace hbelow := absurd hbelow (h place hplace)
  kept _ _ := rfl

theorem not_below_of_nameOf (h : e.textAt place = some (nameOf least)) : ¬Below least e place := by
  rw [below_iff h]
  rintro ⟨n, hn, hlt⟩
  exact absurd (eq_of_names_nameOf hn) hlt.ne

theorem below_congr (h : e'.textAt place = e.textAt place) :
    Below least e' place ↔ Below least e place := by
  simp only [Below, NamesAt, h]

theorem fits_congr (h : e'.textAt place = e.textAt place) :
    Fits least e' place ↔ Fits least e place := by
  rw [Fits, Fits, below_congr h, h]

namespace Raised

theorem not_below (h : Raised least found e e') (hplace : some place ∈ found) :
    ¬Below least e' place := by
  by_cases hbelow : Below least e place
  · exact not_below_of_nameOf (h.raised place hplace hbelow)
  · rwa [below_congr (h.kept place fun h => hbelow h.2)]

/-- With nothing below the minimum, nothing changes. -/
theorem eq_of_not_below (h : Raised least found e e')
    (hnot : ∀ place, some place ∈ found → ¬Below least e place) : e' = e :=
  Element.eq_of_bare h.bare fun place => h.kept place fun hplace => hnot place hplace.1 hplace.2

theorem trans (h : Raised least found e e') (h' : Raised least found' e' e'') :
    Raised least (found ++ found') e e'' where
  bare := h'.bare.trans h.bare
  raised place hplace hbelow := by
    by_cases hfound : some place ∈ found
    · rw [h'.kept place fun hplace' => h.not_below hfound hplace'.2]
      exact h.raised place hfound hbelow
    · have hfound' := (mem_append.mp hplace).resolve_left hfound
      refine h'.raised place hfound' ?_
      rwa [below_congr (h.kept place fun h => hfound h.1)]
  kept place hplace := by
    have hkept := h.kept place fun hfound => hplace ⟨mem_append_left _ hfound.1, hfound.2⟩
    rw [← hkept]
    refine h'.kept place fun hfound' => hplace ⟨mem_append_right _ hfound'.1, ?_⟩
    rw [← below_congr hkept]
    exact hfound'.2

end Raised

/-- The release that a found element names when it has been raised. -/
def raisedRelease (least : Int) (e : Element) : Option (List Nat) → Option Int
  | none => none
  | some place => (releaseAt e place).map (max least)

theorem raisedRelease_of_not_below (h : ¬Below least e place) :
    raisedRelease least e (some place) = releaseAt e place := by
  rw [raisedRelease]
  cases hn : releaseAt e place with
  | none => rfl
  | some n => rw [Option.map_some, max_eq_right (not_below_iff.mp h n hn)]

theorem raisedRelease_of_below (h : Below least e place) :
    raisedRelease least e (some place) = some least := by
  obtain ⟨n, hn, hlt⟩ := h
  rw [raisedRelease, releaseAt_eq_some.mpr hn, Option.map_some, max_eq_left hlt.le]

theorem namesAt_nameOf (h : e'.textAt place = some (nameOf least)) (hbelow : Below least e place)
    (hshort : (Atom.int least).Short) : NamesAt e' place least := by
  obtain ⟨n, ⟨t, -, hn⟩, hlt⟩ := hbelow
  exact ⟨_, h, names_nameOf (hn.nonneg.trans hlt.le) hshort⟩

namespace Raised

theorem isSome_textAt (h : Raised least found e e') (hsome : (e.textAt place).isSome = true) :
    (e'.textAt place).isSome = true := by
  by_cases hplace : some place ∈ found ∧ Below least e place
  · rw [h.raised place hplace.1 hplace.2]
    rfl
  · rwa [h.kept place hplace]

theorem fits (h : Raised least found e e') (hfits : Fits least e place) : Fits least e' place := by
  by_cases hplace : some place ∈ found ∧ Below least e place
  · have htext := h.raised place hplace.1 hplace.2
    obtain ⟨t, ht, hnames⟩ := namesAt_nameOf htext hplace.2 (hfits.2 hplace.2)
    refine ⟨fun t' ht' => ?_, fun hbelow => absurd hbelow (not_below_of_nameOf htext)⟩
    rw [ht, Option.some.injEq] at ht'
    exact ht' ▸ not_isOverlong (release?_eq_some.mpr hnames)
  · rwa [fits_congr (h.kept place hplace)]

/-- Raising does not change what an element names when it has been raised. -/
theorem raisedRelease_eq (h : Raised least found e e') (hfits : Fits least e place) :
    raisedRelease least e' (some place) = raisedRelease least e (some place) := by
  by_cases hplace : some place ∈ found ∧ Below least e place
  · have htext := h.raised place hplace.1 hplace.2
    rw [raisedRelease_of_below hplace.2, raisedRelease_of_not_below (not_below_of_nameOf htext)]
    exact releaseAt_eq_some.mpr (namesAt_nameOf htext hplace.2 (hfits.2 hplace.2))
  · rw [raisedRelease, raisedRelease, releaseAt, releaseAt, h.kept place hplace]

theorem releaseAt_eq (h : Raised least found e e') (hplace : some place ∈ found)
    (hfits : Fits least e place) :
    releaseAt e' place = raisedRelease least e (some place) := by
  rw [← h.raisedRelease_eq hfits, raisedRelease_of_not_below (h.not_below hplace)]

end Raised

theorem raiseAt_of_fits (hsome : (e.textAt place).isSome = true) (hfits : Fits least e place) :
    ∃ e', (raiseAt least place).run e = (.ok (raisedRelease least e (some place)), e') ∧
      Raised least [some place] e e' := by
  obtain ⟨t, ht⟩ := Option.isSome_iff_exists.mp hsome
  by_cases hbelow : Below least e place
  · obtain ⟨n, hn, hlt⟩ := (below_iff ht).mp hbelow
    refine ⟨e.setText (nameOf least) place, ?_, ?_⟩
    · rw [raiseAt_of_lt ht (release?_eq_some.mpr hn) hlt (hfits.2 hbelow),
        raisedRelease_of_below hbelow]
    · obtain ⟨x, hx, -⟩ := exists_at?_of_textAt ht
      have htext := Element.textAt_setText (nameOf least) (e := e) (by rw [hx]; rfl)
      refine ⟨Element.bare_setText _ _ _, fun place' hplace' _ => ?_, fun place' hplace' => ?_⟩
      · obtain rfl := Option.some.inj (mem_singleton.mp hplace')
        rw [htext, if_pos rfl]
      · rw [htext, if_neg]
        rintro rfl
        exact hplace' ⟨mem_singleton.mpr rfl, hbelow⟩
  · refine ⟨e, ?_, raised_of_not_below fun place' hplace' => ?_⟩
    · rw [raisedRelease_of_not_below hbelow]
      exact raiseAt_of_kept ht (release?_eq_releaseAt ht (hfits.1 t ht)) (not_below_iff.mp hbelow)
    · obtain rfl := Option.some.inj (mem_singleton.mp hplace')
      exact hbelow

theorem raiseAt_of_not_fits (hsome : (e.textAt place).isSome = true)
    (hfits : ¬Fits least e place) :
    (raiseAt least place).run e = (.error (.badValue ""), e) := by
  obtain ⟨t, ht⟩ := Option.isSome_iff_exists.mp hsome
  by_cases hlong : IsOverlong t
  · exact raiseAt_of_error ht (release?_of_isOverlong hlong)
  · have hbelow : Below least e place ∧ ¬(Atom.int least).Short := by
      by_contra h
      refine hfits ⟨fun t' ht' => ?_, fun hbelow => by_contra fun hshort => h ⟨hbelow, hshort⟩⟩
      rw [ht, Option.some.injEq] at ht'
      exact ht' ▸ hlong
    obtain ⟨n, hn, hlt⟩ := (below_iff ht).mp hbelow.1
    exact raiseAt_of_long ht (release?_eq_some.mpr hn) hlt hbelow.2

def raiseSome (least : Int) : Option (List Nat) → Edit Element (Option Int)
  | none => pure none
  | some place => raiseAt least place

theorem raiseSome_of_fits {p : Option (List Nat)}
    (hsome : ∀ place, p = some place → (e.textAt place).isSome = true)
    (hfits : ∀ place, p = some place → Fits least e place) :
    ∃ e', (raiseSome least p).run e = (.ok (raisedRelease least e p), e') ∧
      Raised least [p] e e' := by
  cases p with
  | none => exact ⟨e, rfl, raised_of_not_below (by simp)⟩
  | some place => exact raiseAt_of_fits (hsome place rfl) (hfits place rfl)

/-- Found elements are raised one after another, up to the first that cannot be raised. -/
theorem raiseAll_run {root : Element} {done : List (Option (List Nat))}
    (hdone : ∀ place, some place ∈ done → Fits least root place) (he : Raised least done root e)
    (hsome : ∀ place, some place ∈ found → (root.textAt place).isSome = true) :
    ((∀ place, some place ∈ found → Fits least root place) →
      ∃ e', (found.mapM (raiseSome least)).run e =
        (.ok (found.map (raisedRelease least root)), e') ∧
        Raised least (done ++ found) root e') ∧
    ((∃ place, some place ∈ found ∧ ¬Fits least root place) →
      ∃ before e', (found.mapM (raiseSome least)).run e = (.error (.badValue ""), e') ∧
        before <+: found ∧ Raised least (done ++ before) root e') := by
  induction found generalizing done e with
  | nil =>
    refine ⟨fun _ => ⟨e, rfl, by rwa [append_nil]⟩, ?_⟩
    rintro ⟨place, hplace, -⟩
    cases hplace
  | cons p found ih =>
    have hsome_p (place : List Nat) (hp : p = some place) : (root.textAt place).isSome = true :=
      hsome place (hp ▸ mem_cons_self)
    have hsome_found (place : List Nat) (h : some place ∈ found) :=
      hsome place (mem_cons_of_mem _ h)
    rw [mapM_cons]
    by_cases hfits : ∀ place, p = some place → Fits least root place
    · have hfits_e (place : List Nat) (hp : p = some place) : Fits least e place :=
        he.fits (hfits place hp)
      obtain ⟨e₁, hrun, hstep⟩ :=
        raiseSome_of_fits (fun place hp => he.isSome_textAt (hsome_p place hp)) hfits_e
      have hversion : raisedRelease least e p = raisedRelease least root p := by
        cases p with
        | none => rfl
        | some place => exact he.raisedRelease_eq (hfits place rfl)
      have hdone' (place : List Nat) (h : some place ∈ done ++ [p]) : Fits least root place := by
        obtain h | h := mem_append.mp h
        · exact hdone place h
        · exact hfits place (mem_singleton.mp h).symm
      obtain ⟨hok, herror⟩ := ih hdone' (he.trans hstep) hsome_found
      rw [append_assoc, singleton_append] at hok
      rw [run_bind_of_ok hrun, hversion]
      constructor
      · intro hall
        obtain ⟨e', hrun', hraised⟩ := hok fun place h => hall place (mem_cons_of_mem _ h)
        refine ⟨e', ?_, hraised⟩
        rw [run_bind_of_ok hrun', map_cons]
        rfl
      · rintro ⟨place, hplace, hnot⟩
        have hplace' : some place ∈ found := by
          refine (mem_cons.mp hplace).resolve_left fun hp => hnot (hfits place hp.symm)
        obtain ⟨before, e', hrun', hbefore, hraised⟩ := herror ⟨place, hplace', hnot⟩
        rw [append_assoc, singleton_append] at hraised
        refine ⟨p :: before, e', ?_, cons_prefix_cons.mpr ⟨rfl, hbefore⟩, hraised⟩
        rw [run_bind, hrun']
    · push Not at hfits
      obtain ⟨place, rfl, hnot⟩ := hfits
      have hkept := he.kept place fun h => hnot (hdone place h.1)
      have hstop : (raiseSome least (some place)).run e = (.error (.badValue ""), e) :=
        raiseAt_of_not_fits (he.isSome_textAt (hsome_p place rfl))
          (mt (fits_congr hkept).mp hnot)
      rw [run_bind, hstop]
      refine ⟨fun hall => absurd (hall place mem_cons_self) hnot, fun _ => ?_⟩
      exact ⟨[], e, rfl, nil_prefix, by rwa [append_nil]⟩

theorem bare_raiseSome (least : Int) (p : Option (List Nat)) (e : Element) :
    ((raiseSome least p).run e).2.bare = e.bare := by
  cases p with
  | none => rfl
  | some place =>
    rw [raiseSome]
    by_cases hsome : (e.textAt place).isSome = true
    · by_cases hfits : Fits least e place
      · obtain ⟨e', hrun, hraised⟩ := raiseAt_of_fits hsome hfits
        rw [hrun]
        exact hraised.bare
      · rw [raiseAt_of_not_fits hsome hfits]
    · rw [Option.not_isSome_iff_eq_none, Element.textAt, Option.bind_eq_none_iff] at hsome
      rw [raiseAt, run_get_state_bind]
      cases hx : e.at? place with
      | none => rfl
      | some x =>
        have hread : releaseOf x = .error .wrongKind := by rw [releaseOf, hsome x hx]
        dsimp only
        rw [hread]
        rfl

def raiseLooked (least : Int) (look : Element → List String → Option (List Nat))
    (way : List String) : Edit Element (Option Int) := do
  raiseSome least (look (← get) way)

/-- Places that do not depend on texts can be looked up before anything is raised. -/
theorem mapM_raiseLooked {look : Element → List String → Option (List Nat)}
    {places : List String → Option (List Nat)} {root : Element}
    (hlook : ∀ e : Element, e.bare = root.bare → look e = places) (least : Int)
    (ways : List (List String)) (he : e.bare = root.bare) :
    (ways.mapM (raiseLooked least look)).run e =
      ((ways.map places).mapM (raiseSome least)).run e := by
  induction ways generalizing e with
  | nil => rfl
  | cons way ways ih =>
    have hfirst : (raiseLooked least look way).run e =
        (raiseSome least (places way)).run e := by
      rw [raiseLooked, run_get_state_bind, hlook e he]
    have hbare := bare_raiseSome least (places way) e
    rw [mapM_cons, map_cons, mapM_cons, run_bind, run_bind, hfirst]
    generalize (raiseSome least (places way)).run e = r at hbare ⊢
    rcases r with ⟨f | version, e₁⟩
    · rfl
    · dsimp only at hbare ⊢
      rw [run_bind, run_bind, ih (hbare.trans he)]

end

end RegexCorpus.Pom
