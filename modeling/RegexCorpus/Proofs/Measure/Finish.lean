import RegexCorpus.Proofs.Measure.Program

/-!
# Whether measuring a corpus finishes

Measuring a file gets through it whatever the tools answer, with two exceptions. Languages may be
asked for when the registries of a pattern are not known, and then nothing is done at all; or no
pattern is left to be measured, and then there is no share of measured patterns to be found at the
end.
-/

namespace RegexCorpus.Measure
open List Outcome Text

variable {h : Host} {limits : Automaton.Limits} {analyses : Analyses} {out : String} {r : Regex}
variable {f : Fault} {ls : List String} {rs : List Regex}

/-! ### Registries -/

/-- The key is the name of a registry whose language is known. -/
def IsRegistry (k : Atom) : Prop := ∃ p ∈ Registry.languages, k = .str p.1

theorem language_eq_ok {k : Atom} {name : String} (hk : Registry.language k = .ok name) :
    ∃ s, k = .str s ∧ (s, name) ∈ Registry.languages := by
  unfold Registry.language at hk
  split at hk
  · next s =>
    split at hk
    · next s' _ hfind =>
      cases hk
      obtain rfl : s' = s := by simpa using find?_some hfind
      exact ⟨s', rfl, mem_of_find?_eq_some hfind⟩
    · cases hk
  · cases hk

theorem language_eq_error {k : Atom} (hk : Registry.language k = .error f) :
    f = .missingKey k ∧ ¬IsRegistry k := by
  constructor
  · unfold Registry.language at hk
    split at hk
    · split at hk
      · cases hk
      · cases hk
        rfl
    · cases hk
      rfl
  · rintro ⟨p, hp, rfl⟩
    rw [Regex.language_of_mem p hp] at hk
    cases hk

/-! ### Languages of a pattern -/

/-- Every registry in which the pattern is used is known. -/
def Located (r : Regex) : Prop :=
  ∃ es, r.total = some (.dict es) ∧ ∀ e ∈ es, e.2.holds = true → IsRegistry e.1

/-- The pattern is used in a registry of one of the languages, whatever the case of letters. -/
def UsedIn (languages : List String) (r : Regex) : Prop :=
  ∃ es, r.total = some (.dict es) ∧ ∃ e ∈ es, e.2.holds = true ∧
    ∃ p ∈ Registry.languages, e.1 = .str p.1 ∧ Text.lower p.2 ∈ languages.map Text.lower

/-- Why the languages of a pattern cannot be told: its counts are no table, or there is a count for
an unknown registry. -/
inductive Unlocated (r : Regex) : Fault → Prop
  | table (h : ∀ es, r.total ≠ some (.dict es)) : Unlocated r .missingField
  | registry {es : Entries} {k : Atom} {v : Value} (h : r.total = some (.dict es))
      (hmem : (k, v) ∈ es) (hused : v.holds = true) (hunknown : ¬IsRegistry k) :
      Unlocated r (.missingKey k)

theorem Unlocated.not_located (h : Unlocated r f) : ¬Located r := by
  rintro ⟨es, hes, hknown⟩
  cases h with
  | table h => exact h es hes
  | registry h hmem hused hunknown =>
    cases hes.symm.trans h
    exact hunknown (hknown _ hmem hused)

theorem languages_of_total {es : Entries} (h : r.total = some (.dict es)) :
    r.languages = (es.filter (·.2.holds)).mapM fun e => do
      return lower (← Registry.language e.1) := by
  rw [Regex.languages, Regex.languagesOf, h]
  rfl

theorem languages_of_no_table (h : ∀ es, r.total ≠ some (.dict es)) :
    r.languages = .error .missingField := by
  rw [Regex.languages, Regex.languagesOf]
  cases htotal : r.total with
  | none => rfl
  | some v =>
    cases v with
    | atom | list => rfl
    | dict es => exact absurd htotal (h es)

/-- The languages of a pattern are those of the registries in which it is used. -/
theorem languages_eq_ok (h : r.languages = .ok ls) :
    ∃ es, r.total = some (.dict es) ∧
      List.Forall₂ (fun e l => ∃ p ∈ Registry.languages, e.1 = .str p.1 ∧ lower p.2 = l)
        (es.filter (·.2.holds)) ls := by
  by_cases htable : ∃ es, r.total = some (.dict es)
  · obtain ⟨es, hes⟩ := htable
    refine ⟨es, hes, ?_⟩
    rw [languages_of_total hes, mapM_eq_ok] at h
    refine h.imp fun e l hl => ?_
    obtain ⟨name, hname, hl⟩ := bind_eq_ok.mp hl
    obtain ⟨s, hs, hmem⟩ := language_eq_ok hname
    exact ⟨(s, name), hmem, hs, pure_eq_ok.mp hl⟩
  · rw [languages_of_no_table (not_exists.mp htable)] at h
    cases h

theorem languages_eq_error (h : r.languages = .error f) : Unlocated r f := by
  by_cases htable : ∃ es, r.total = some (.dict es)
  · obtain ⟨es, hes⟩ := htable
    rw [languages_of_total hes] at h
    obtain ⟨⟨k, v⟩, hmem, hk⟩ := exists_of_mapM_eq_error h
    rw [mem_filter] at hmem
    obtain hk | ⟨_, -, hk⟩ := bind_eq_error.mp hk
    · obtain ⟨rfl, hunknown⟩ := language_eq_error hk
      exact .registry hes hmem.1 hmem.2 hunknown
    · cases hk
  · rw [languages_of_no_table (not_exists.mp htable)] at h
    cases h
    exact .table (not_exists.mp htable)

theorem located_of_languages (h : r.languages = .ok ls) : Located r := by
  obtain ⟨es, hes, hls⟩ := languages_eq_ok h
  refine ⟨es, hes, fun e he hused => ?_⟩
  obtain ⟨l, -, p, hp, hkey, -⟩ :=
    exists_of_mem_right hls.flip (mem_filter.mpr ⟨he, hused⟩)
  exact ⟨p, hp, hkey⟩

/-- Of a pattern whose languages can be told, it can be told whether it is used in some of them. -/
theorem isUsedIn_of_located (h : Located r) (languages : List String) :
    ∃ b, isUsedIn r languages = .ok b ∧ (b = true ↔ UsedIn languages r) := by
  cases hls : r.languages with
  | error f => exact absurd h (languages_eq_error hls).not_located
  | ok ls =>
    obtain ⟨es, hes, hcorr⟩ := languages_eq_ok hls
    refine ⟨ls.any (languages.map lower).contains, ?_, ?_⟩
    · rw [isUsedIn, hls]
      rfl
    · rw [any_eq_true]
      constructor
      · rintro ⟨l, hl, hwanted⟩
        obtain ⟨e, he, p, hp, hkey, rfl⟩ := exists_of_mem_right hcorr hl
        rw [mem_filter] at he
        exact ⟨es, hes, e, he.1, he.2, p, hp, hkey, by simpa using hwanted⟩
      · rintro ⟨es', hes', e, he, hused, p, hp, hkey, hwanted⟩
        cases hes.symm.trans hes'
        obtain ⟨l, hl, q, hq, hkey', rfl⟩ :=
          exists_of_mem_right hcorr.flip (mem_filter.mpr ⟨he, hused⟩)
        -- a registry has one language
        have hname : Registry.language e.1 = .ok p.2 := hkey ▸ Regex.language_of_mem p hp
        rw [hkey', Regex.language_of_mem q hq, Except.ok.injEq] at hname
        rw [← hname] at hwanted
        exact ⟨_, hl, by simpa using hwanted⟩

theorem lower_smallName :
    ∀ p ∈ Registry.languages, lower (lower p.2) = lower p.2 := by
  decide +kernel

theorem map_lower_languages (h : r.languages = .ok ls) : ls.map lower = ls := by
  obtain ⟨es, -, hcorr⟩ := languages_eq_ok h
  refine (map_congr_left fun l hl => ?_).trans (map_id ls)
  obtain ⟨_, -, p, hp, -, rfl⟩ := exists_of_mem_right hcorr hl
  exact lower_smallName p hp

theorem not_isEmpty_filter_eraseDups (p : String → Bool) (ls : List String) :
    (!(ls.eraseDups.filter p).isEmpty) = ls.any p := by
  rw [Bool.eq_iff_iff, any_eq_true]
  simp only [Bool.not_eq_true', isEmpty_eq_false_iff_exists_mem, mem_filter, mem_eraseDups]

/-- The set of a pattern's languages meets the wanted ones when the pattern is used in one of
them. -/
theorem hasLanguageAmong_lower (languages : List String) (r : Regex) :
    hasLanguageAmong (languages.map lower) r = isUsedIn r languages := by
  rw [isUsedIn, hasLanguageAmong]
  cases hls : r.languages with
  | error f => rfl
  | ok ls => simp only [ok_bind, map_lower_languages hls, not_isEmpty_filter_eraseDups]

theorem isUsedIn_of_not_located (h : ¬Located r) (languages : List String) :
    ∃ f, isUsedIn r languages = .error f ∧ Unlocated r f := by
  cases hls : r.languages with
  | ok ls => exact absurd (located_of_languages hls) h
  | error f =>
    refine ⟨f, ?_, languages_eq_error hls⟩
    rw [isUsedIn, hls]
    rfl

/-! ### Choosing patterns -/

/-- It can be told whether the pattern is wanted: no language is named, or its own are known. -/
def Sortable (languages : List String) (r : Regex) : Prop := languages = [] ∨ Located r

def Wanted (languages : List String) (r : Regex) : Prop := languages = [] ∨ UsedIn languages r

/-- The test by which a pattern is kept. -/
def isWanted (languages : List String) (r : Regex) : Outcome Bool :=
  if languages.isEmpty then pure true else isUsedIn r languages

theorem keepUsed_cons (languages : List String) (r : Regex) (rs : List Regex) :
    keepUsed languages (r :: rs) = (do
      let keep ← isWanted languages r
      let rest ← keepUsed languages rs
      return if keep then r :: rest else rest) := by
  rw [keepUsed, isWanted, hasLanguageAmong_lower]
  split_ifs <;> rfl

theorem isWanted_of_sortable {languages : List String} (h : Sortable languages r) :
    ∃ b, isWanted languages r = .ok b ∧ (b = true ↔ Wanted languages r) := by
  by_cases hnone : languages = []
  · refine ⟨true, ?_, by simp [Wanted, hnone]⟩
    rw [isWanted, if_pos (by simpa using hnone)]
    rfl
  · obtain ⟨b, hb, hused⟩ := isUsedIn_of_located (h.resolve_left hnone) languages
    refine ⟨b, ?_, ?_⟩
    · rw [isWanted, if_neg (by simpa using hnone), hb]
    · rw [hused, Wanted, or_iff_right hnone]

theorem isWanted_of_not_sortable {languages : List String} (h : ¬Sortable languages r) :
    ∃ f, isWanted languages r = .error f ∧ Unlocated r f := by
  obtain ⟨hsome, hr⟩ := not_or.mp h
  obtain ⟨f, hf, hunlocated⟩ := isUsedIn_of_not_located hr languages
  refine ⟨f, ?_, hunlocated⟩
  rw [isWanted, if_neg (by simpa using hsome), hf]

def isYes : Outcome Bool → Bool
  | .ok b => b
  | .error _ => false

/-- Patterns that can be sorted are kept, in their order, when they are wanted. -/
theorem keepUsed_eq_filter {languages : List String} (h : ∀ r ∈ rs, Sortable languages r) :
    keepUsed languages rs = .ok (rs.filter fun r => isYes (isWanted languages r)) := by
  induction rs with
  | nil => rfl
  | cons r rs ih =>
    rw [forall_mem_cons] at h
    obtain ⟨b, hb, -⟩ := isWanted_of_sortable h.1
    rw [keepUsed_cons, hb, ok_bind, ih h.2, filter_cons, hb]
    rfl

theorem keepUsed_of_sortable {languages : List String} (h : ∀ r ∈ rs, Sortable languages r) :
    ∃ kept, keepUsed languages rs = .ok kept ∧ ∀ r, r ∈ kept ↔ r ∈ rs ∧ Wanted languages r := by
  refine ⟨_, keepUsed_eq_filter h, fun r => ?_⟩
  rw [mem_filter]
  refine and_congr_right fun hr => ?_
  obtain ⟨b, hb, hwanted⟩ := isWanted_of_sortable (h r hr)
  rw [hb]
  exact hwanted

theorem keepUsed_of_not_sortable {languages : List String} (h : ¬∀ r ∈ rs, Sortable languages r) :
    ∃ f, keepUsed languages rs = .error f ∧ ∃ r ∈ rs, Unlocated r f := by
  induction rs with
  | nil => exact absurd (by simp) h
  | cons r rs ih =>
    by_cases hr : Sortable languages r
    · have hrs : ¬∀ r ∈ rs, Sortable languages r :=
        fun hrs => h (forall_mem_cons.mpr ⟨hr, hrs⟩)
      obtain ⟨b, hb, -⟩ := isWanted_of_sortable hr
      obtain ⟨f, hf, q, hq, hunlocated⟩ := ih hrs
      refine ⟨f, ?_, q, mem_cons_of_mem r hq, hunlocated⟩
      rw [keepUsed_cons, hb, ok_bind, hf]
      rfl
    · obtain ⟨f, hf, hunlocated⟩ := isWanted_of_not_sortable hr
      refine ⟨f, ?_, r, mem_cons_self, hunlocated⟩
      rw [keepUsed_cons, hf]
      rfl

/-! ### Measuring what was chosen -/

/-- No pattern, answer or limit is so large that its size has more digits than a number may
have. -/
structure Moderate (limits : Automaton.Limits) (h : Host) (rs : List Regex) : Prop where
  patterns : ∀ r ∈ rs, Brief r
  answers : h.Expects Answer.Moderate
  limit : (Atom.int limits.paths).Short

theorem writable_moderate {batch : List Regex} (hlimit : (Atom.int limits.paths).Short)
    (hbrief : ∀ r ∈ batch, Brief r) : WritableUnder Answer.Moderate limits analyses batch := by
  intro h h' ms hanswers hrun m hm
  obtain ⟨r, hr, k, he⟩ := exists_of_mem_right (measureBatch_metrics hrun) hm
  obtain ⟨p, hp, -, hcsharp⟩ := he.pattern
  refine he.exists_toLine ?_ fun _ => ⟨hanswers.nextAnswer, hlimit⟩
  rw [hcsharp]
  exact hbrief r hr p hp

theorem batches_eq_nil {α : Type} {size : ℕ} (hsize : 0 < size) {xs : List α} :
    batches size xs = [] ↔ xs = [] := by
  constructor
  · intro h
    rw [← flatten_batches hsize xs, h]
    rfl
  · rintro rfl
    rw [batches, dif_pos (.inl rfl)]

section
variable {path : String} {shareStatic : Bool} {languages : List String} {loaded kept : List Regex}

/-- Once patterns have been chosen, only their absence is a fault. -/
theorem measureFile_of_kept (hload : (load path shareStatic).run h = (.ok loaded, h))
    (hkept : keepUsed languages loaded = .ok kept) (hsub : ∀ r ∈ kept, r ∈ loaded)
    (hout : h.CanWrite out) (hmoderate : Moderate limits h loaded) (order : List ℕ) :
    ∃ h', (measureFile limits path shareStatic analyses languages out order).run h =
        (if kept = [] then .error .divisionByZero else .ok (), h') ∧
      (kept = [] → h'.Holds out (.text "")) := by
  have hbatches : (loadBatches path shareStatic languages).run h =
      (.ok (batches batchSize kept), h) := by
    rw [loadBatches, run_bind_of_ok hload, run_lift_bind hkept]
    rfl
  have hwork : ∀ batch ∈ batches batchSize kept,
      WritableUnder Answer.Moderate limits analyses batch := by
    intro batch hbatch
    have hflatten : (batches batchSize kept).flatten = kept := flatten_batches (by decide) kept
    refine writable_moderate hmoderate.limit fun r hr => hmoderate.patterns r (hsub r ?_)
    rw [← hflatten]
    exact mem_flatten_of_mem hbatch hr
  obtain ⟨h', hmeasure⟩ := measureBatches_run_under hout hmoderate.answers hwork order
  refine ⟨h', ?_, ?_⟩
  · rw [measureFile, run_bind_of_ok hbatches, run_bind_of_ok hmeasure]
    by_cases hnone : kept = []
    · rw [if_pos hnone, (batches_eq_nil (by decide)).mpr hnone]
      rfl
    · have hsome := mt (batches_eq_nil (by decide : 0 < batchSize)).mp hnone
      rw [if_neg hnone, if_neg (by simpa using hsome)]
      rfl
  · rintro rfl
    obtain ⟨rs, -, hcut, -, -, hholds⟩ := measureBatches_eq_ok hmeasure
    rw [(batches_eq_nil (by decide)).mpr rfl, map_eq_nil_iff] at hcut
    rw [hcut, perm_nil.mp (Schedule.completed_perm order [])] at hholds
    exact hholds

theorem measureFile_of_fault (hload : (load path shareStatic).run h = (.ok loaded, h))
    {f : Fault} (hkept : keepUsed languages loaded = .error f) (order : List ℕ) :
    (measureFile limits path shareStatic analyses languages out order).run h = (.error f, h) := by
  rw [measureFile, loadBatches, run_bind, run_bind_of_ok hload, hkept]
  rfl

/-- Measuring a file that can be read finishes exactly when some of its patterns is wanted and, if
languages are named, those of all patterns are known. It fails in one of two ways: because of
a pattern whose languages cannot be told, before anything is done, or at the end, after an empty
file has been written. -/
theorem measureFile_finishes {c : Content} {lines : List String} (hpath : h.Holds path c)
    (hlines : c.lines = (lines, none)) (hout : h.CanWrite out)
    (hmoderate : Moderate limits h (regexesOf shareStatic lines)) (order : List ℕ) :
    ((∃ h', (measureFile limits path shareStatic analyses languages out order).run h =
        (Except.ok (), h')) ↔
      (∀ r ∈ regexesOf shareStatic lines, Sortable languages r) ∧
        ∃ r ∈ regexesOf shareStatic lines, Wanted languages r) ∧
    ∀ f h', (measureFile limits path shareStatic analyses languages out order).run h =
        (Except.error f, h') →
      (h' = h ∧ ∃ r ∈ regexesOf shareStatic lines, Unlocated r f) ∨
        (f = .divisionByZero ∧ h'.Holds out (.text "") ∧
          ∀ r ∈ regexesOf shareStatic lines, Located r ∧ ¬UsedIn languages r) := by
  have hload : (load path shareStatic).run h = (Except.ok (regexesOf shareStatic lines), h) :=
    run_bind_eq_ok.mpr ⟨lines, h, hpath.readLines hlines, rfl⟩
  by_cases hsort : ∀ r ∈ regexesOf shareStatic lines, Sortable languages r
  · obtain ⟨kept, hkept, hmem⟩ := keepUsed_of_sortable hsort
    obtain ⟨h₁, hrun, hempty⟩ := measureFile_of_kept hload hkept (fun r hr => ((hmem r).mp hr).1)
      hout hmoderate order
    by_cases hnone : kept = []
    · have hunwanted : ∀ r ∈ regexesOf shareStatic lines, ¬Wanted languages r := by
        intro r hr hwanted
        simpa [hnone] using (hmem r).mpr ⟨hr, hwanted⟩
      rw [hrun, if_pos hnone]
      constructor
      · constructor
        · rintro ⟨h', hend⟩
          cases hend
        · rintro ⟨-, r, hr, hwanted⟩
          exact absurd hwanted (hunwanted r hr)
      · rintro f h' hend
        cases hend
        refine .inr ⟨rfl, hempty hnone, fun r hr => ?_⟩
        obtain ⟨hsome, hunused⟩ := not_or.mp (hunwanted r hr)
        exact ⟨(hsort r hr).resolve_left hsome, hunused⟩
    · rw [hrun, if_neg hnone]
      constructor
      · obtain ⟨r, hr⟩ := exists_mem_of_ne_nil kept hnone
        exact ⟨fun _ => ⟨hsort, r, (hmem r).mp hr⟩, fun _ => ⟨h₁, rfl⟩⟩
      · rintro f h' hend
        cases hend
  · obtain ⟨f, hkept, r, hr, hunlocated⟩ := keepUsed_of_not_sortable hsort
    rw [measureFile_of_fault hload hkept]
    constructor
    · constructor
      · rintro ⟨h', hrun⟩
        cases hrun
      · rintro ⟨hall, -⟩
        exact absurd hall hsort
    · rintro f' h' hrun
      cases hrun
      exact .inl ⟨rfl, r, hr, hunlocated⟩

end

/-! ### A corpus of one pattern -/

variable (lines : List String)

/-- A host with a corpus and nothing else. -/
def hostOf (lines : List String) : Host :=
  { files := .folder [("corpus", .file (.text (Text.unlines lines)))] }

theorem holds_hostOf : (hostOf lines).Holds "corpus" (.text (unlines lines)) := ⟨["corpus"], rfl⟩

theorem canWrite_hostOf : (hostOf lines).CanWrite "out" :=
  ⟨["out"], none, rfl, by simp⟩

theorem moderate_hostOf (hrs : ∀ r ∈ rs, Brief r) : Moderate {} (hostOf lines) rs := by
  refine ⟨hrs, ⟨?_, by simp [hostOf]⟩, ?_⟩
  · exact Value.short_digit (by decide)
  · exact Value.short_of_digits (k := 4) (by decide) (by decide)

/-- A pattern used in one module of the registry has a line, from which it is loaded. -/
theorem exists_line_counted (registry : String) :
    ∃ l s, Text.IsOneLine l ∧ regexesOf false [l ++ "\n"] = [s] ∧ Brief s ∧
      s.total = some (.object [(registry, .int 1)]) := by
  have hstorable : (counted [(registry, .int 1)]).Storable :=
    storable_counted _ (.object (by decide) (by simp) (by simp [Value.short_digit]))
  obtain ⟨⟨l, s⟩, hl⟩ := exists_isLineOf hstorable
  refine ⟨l, s, hl.isOneLine, ?_, (hl.hasLine rfl (by decide)).brief, ?_⟩
  · rw [regexesOf_eq]
    simp [hl.read le_rfl]
  · exact counts_eq_of_single hl.same.total

/-- The pattern is used in Python, and is measured with all analyses. -/
theorem measureFile_finishes_python :
    ∃ l s, regexesOf false [l ++ "\n"] = [s] ∧ UsedIn ["PYTHON"] s ∧
      ∃ h', (measureFile {} "corpus" false ⟨true, true, true⟩ ["PYTHON"] "out").run (hostOf [l]) =
        (Except.ok (), h') := by
  obtain ⟨l, s, hone, hregexes, hbrief, htotal⟩ := exists_line_counted "pypi"
  have hused : UsedIn ["PYTHON"] s :=
    ⟨_, htotal, (.str "pypi", .int 1), by simp, rfl, ("pypi", "Python"), by decide, rfl, by decide⟩
  have hlocated : Located s := by
    refine ⟨_, htotal, fun e he _ => ⟨("pypi", "Python"), by decide, ?_⟩⟩
    rw [map_singleton, mem_singleton] at he
    rw [he]
  have hlines : (Content.text (Text.unlines [l])).lines = ([l].map (· ++ "\n"), none) :=
    Content.lines_unlines (by simpa using hone)
  have hmoderate : Moderate {} (hostOf [l]) (regexesOf false ([l].map (· ++ "\n"))) :=
    moderate_hostOf [l] (by rw [map_singleton, hregexes]; simpa using hbrief)
  refine ⟨l, s, hregexes, hused,
    (measureFile_finishes (holds_hostOf [l]) hlines (canWrite_hostOf [l]) hmoderate []).1.mpr ?_⟩
  rw [map_singleton, hregexes]
  simp [Sortable, Wanted, hlocated, hused]

/-- An empty corpus is a fault, and so is a pattern with a count for an unknown registry. -/
theorem measureFile_raises :
    (∃ h', (measureFile {} "corpus" false {} [] "out").run (hostOf []) =
      (Except.error .divisionByZero, h') ∧ h'.Holds "out" (.text "")) ∧
    ∃ l s, regexesOf false [l ++ "\n"] = [s] ∧
      (measureFile {} "corpus" false {} ["python"] "out").run (hostOf [l]) =
        (Except.error (.missingKey (.str "x")), hostOf [l]) := by
  constructor
  · have hload : (load "corpus" false).run (hostOf []) = (Except.ok [], hostOf []) :=
      load_interspersed (by simp) .nil (holds_hostOf []) false
    obtain ⟨h', hrun, hempty⟩ : ∃ h', (measureFile {} "corpus" false {} [] "out").run (hostOf []) =
        (if ([] : List Regex) = [] then Except.error .divisionByZero else .ok (), h') ∧ _ :=
      measureFile_of_kept hload (keepUsed_nil []) (by simp) (canWrite_hostOf [])
        (moderate_hostOf [] (by simp)) []
    exact ⟨h', hrun, hempty rfl⟩
  · obtain ⟨l, s, hone, hregexes, -, htotal⟩ := exists_line_counted "x"
    have hload : (load "corpus" false).run (hostOf [l]) = (Except.ok [s], hostOf [l]) := by
      rw [load_interspersed (by simpa using hone) (.refl [l]) (holds_hostOf [l]),
        map_singleton, hregexes]
    have hkept : keepUsed ["python"] [s] = .error (.missingKey (.str "x")) := by
      rw [keepUsed_cons, isWanted, if_neg (by simp), isUsedIn, languages_of_total htotal]
      rfl
    exact ⟨l, s, hregexes, measureFile_of_fault hload hkept []⟩

end RegexCorpus.Measure
