import RegexCorpus.Proofs.Project.Vendored

/-!
# Where a project is unpacked

The counter of lines names the files of a project from the root of all files on, so the directories
above the project are on the paths of its files, and are tested with them. A project below a directory
for third-party code has no files of its own; one below a path that begins with two slashes cannot be
judged at all, as soon as a file of the registry's languages is reported.
-/

namespace RegexCorpus
open List FileTree RegexCorpus.Path

/-! ### Files below a directory -/

/-- A file with the name that it has below a directory. -/
def LineCount.under (root : String) (c : LineCount) : LineCount :=
  { c with path := Path.join root c.path }

/-- A table with the names that the files have below a directory. -/
def SourceTable.under (root : String) (t : SourceTable) : SourceTable :=
  t.map fun e => (e.1, e.2.map fun f => { f with name := Path.join root f.name })

/-- The directory, or one above it, has a name for third-party code. -/
def Project.isThirdPartyPlace (root : String) : Bool :=
  (Path.names root).any fun d => thirdPartyNames.contains (Text.lower d)

/-- A project with these files is unpacked in a directory, given from the root of all files on, and
the counter of lines reports on it. The names are those in the project, and tell which of them are
regular files. -/
structure Host.Unpacks (h : Host) (root : String) (regular : String → Bool) (files : List LineCount) :
    Prop where
  absolute : FileTree.isAbsolute root = true
  code_eq : h.lineCode = 0
  readable : Json.checkLimits Json.nestingLimit h.lineReport = .ok ()
  report_eq : ∃ ms, h.lineReport = .object ms ∧ List.Forall₂ (LineCount.IsEntry regular) ms files
  nodup : (files.map LineCount.path).Nodup
  relative : ∀ c ∈ files, FileTree.isAbsolute c.path = false
  regular_eq : ∀ c ∈ files, h.isRegular (Path.join root c.path) = regular c.path

namespace Project
open LineCount SourceTable

section
variable {root : String} {c : LineCount}

theorem ne_empty_of_isAbsolute (h : isAbsolute root = true) : root ≠ "" := by
  rintro rfl
  cases h

theorem head?_of_not_isAbsolute {name : String} (h : isAbsolute name = false) :
    name.toList.head? ≠ some '/' := by
  simpa [isAbsolute] using h

/-- Below a directory a file looks like one of third parties by that directory, or by its name in the
project. -/
theorem isVendored_under (hroot : isAbsolute root = true)
    (hc : isAbsolute c.path = false) :
    (c.under root).isVendored = (isThirdPartyPlace root || c.isVendored) := by
  have hdirectories := filter_directories_join (ne_empty_of_isAbsolute hroot)
    (head?_of_not_isAbsolute hc)
  rw [isVendored, any_thirdParty_filter, LineCount.under, hdirectories, any_append,
    ← any_thirdParty_filter]
  rfl

theorem isNamed_under (hroot : isAbsolute root = true)
    (hc : isAbsolute c.path = false) :
    (c.under root).source.IsNamed ↔ ¬Path.BeginsTwice root := by
  have hempty := join_ne_empty (ne_empty_of_isAbsolute hroot) (head?_of_not_isAbsolute hc)
  have htwice := beginsTwice_join (ne_empty_of_isAbsolute hroot) (head?_of_not_isAbsolute hc)
  show join root c.path ≠ "" ∧ ¬Path.BeginsTwice (join root c.path) ↔ _
  rw [htwice]
  exact and_iff_right hempty

end

/-! ### The table of a project -/

section
variable {h : Host} {root registry : String} {regular : String → Bool} {files : List LineCount}
  {languages : List String}

theorem placed_object (hroot : isAbsolute root = true) (ms : Members) :
    placed root (.object ms) = .object (ms.map fun m => (join root m.1, m.2)) := by
  rw [Value.object, placed, if_pos hroot, map_map, Value.object, map_map]
  rfl

theorem filter_under (hunpacks : h.Unpacks root regular files) (l : String) :
    (files.map (LineCount.under root)).filter (isIn h.isRegular l) =
      (files.filter (isIn regular l)).map (LineCount.under root) := by
  rw [filter_map]
  refine congrArg _ (filter_congr fun c hc => ?_)
  show (h.isRegular (join root c.path) && Text.lower c.language == l) = isIn regular l c
  rw [hunpacks.regular_eq c hc, isIn]

theorem total_under (cs : List LineCount) : total (cs.map (LineCount.under root)) = total cs := by
  rw [total, map_map]
  rfl

theorem allSourceFiles_run_of_unpacks (hunpacks : h.Unpacks root regular files)
    (hregistry : Registry.languagesOf registry = .ok languages) :
    (allSourceFiles root registry).run h =
      (.ok (tableOf (isIn h.isRegular) languages (files.map (LineCount.under root))), h) := by
  obtain ⟨ms, hreport, hms⟩ := hunpacks.report_eq
  have hplaced : placed root h.lineReport = .object (ms.map fun m => (join root m.1, m.2)) := by
    rw [hreport, placed_object hunpacks.absolute]
  have hentries : List.Forall₂ (IsEntry h.isRegular) (ms.map fun m => (join root m.1, m.2))
      (files.map (LineCount.under root)) := by
    rw [forall₂_map_left_iff, forall₂_map_right_iff]
    have hboth := (forall₂_and_left _ _).mpr ⟨hunpacks.regular_eq, hms.flip⟩
    refine hboth.flip.imp fun m c hm => ?_
    obtain ⟨hregular, hm⟩ := hm
    refine ⟨congrArg (join root) hm.path_eq, fun hc => hm.code_eq ?_, fun hc => hm.language_eq ?_⟩
    · rw [← hregular]
      exact hc
    · rw [← hregular]
      exact hc
  have hnodup : ((files.map (LineCount.under root)).map path).Nodup := by
    have hjoin : (files.map (LineCount.under root)).map path = (files.map path).map (join root) := by
      rw [map_map, map_map]
      rfl
    rw [hjoin]
    refine hunpacks.nodup.map_on fun p hp q hq heq => ?_
    obtain ⟨c, hc, rfl⟩ := mem_map.mp hp
    obtain ⟨d, hd, rfl⟩ := mem_map.mp hq
    exact join_injective (ne_empty_of_isAbsolute hunpacks.absolute)
      (head?_of_not_isAbsolute (hunpacks.relative c hc))
      (head?_of_not_isAbsolute (hunpacks.relative d hd)) heq
  exact allSourceFiles_run_of_summary hregistry
    (summary_run_of_report hunpacks.code_eq hunpacks.readable hplaced hentries hnodup)

/-! ### What is selected -/

/-- The lines of code of each language can be reported. -/
def AddsUp (regular : String → Bool) (languages : List String) (files : List LineCount) : Prop :=
  ∀ l ∈ languages, total (files.filter (isIn regular l)) < 10 ^ Json.digitLimit

instance : Decidable (AddsUp regular languages files) :=
  inferInstanceAs (Decidable (∀ l ∈ languages, _ < _))

def NoneIn (regular : String → Bool) (languages : List String) (files : List LineCount) : Prop :=
  ∀ l ∈ languages, files.filter (isIn regular l) = []

instance : Decidable (NoneIn regular languages files) :=
  inferInstanceAs (Decidable (∀ l ∈ languages, _ = _))

/-- What is selected in a project below a directory, with the names in the project. -/
def selection (root : String) (regular : String → Bool) (languages : List String)
    (files : List LineCount) : Outcome SourceTable :=
  if ¬AddsUp regular languages files then .error (.badValue "")
  else if Path.BeginsTwice root ∧ ¬NoneIn regular languages files then .error .endless
  else .ok (tableOf (fun l c => isOwn regular l c && !isThirdPartyPlace root) languages files)

theorem addsUp_under (hunpacks : h.Unpacks root regular files) :
    (∀ l ∈ languages, total ((files.map (LineCount.under root)).filter (isIn h.isRegular l)) <
      10 ^ Json.digitLimit) ↔ AddsUp regular languages files := by
  refine forall₂_congr fun l _ => ?_
  rw [filter_under hunpacks, total_under]

/-- The project's own files below a directory. -/
theorem tableOf_under (hunpacks : h.Unpacks root regular files) :
    tableOf (isOwn h.isRegular) languages (files.map (LineCount.under root)) =
      (tableOf (fun l c => isOwn regular l c && !isThirdPartyPlace root) languages files).under
        root := by
  rw [tableOf, tableOf, SourceTable.under, map_map]
  refine map_congr_left fun l _ => Prod.ext rfl ?_
  have hown : ((files.map (LineCount.under root)).filter (isOwn h.isRegular l)) =
      (files.filter fun c => isOwn regular l c && !isThirdPartyPlace root).map
        (LineCount.under root) := by
    rw [filter_isOwn, filter_under hunpacks, filter_map, filter_filter]
    refine congrArg _ (filter_congr fun c hc => ?_)
    rw [Function.comp_apply, isVendored_under hunpacks.absolute (hunpacks.relative c hc), isOwn]
    cases isThirdPartyPlace root <;> cases c.isVendored <;> simp
  rw [hown, map_map, Function.comp_apply, map_map]
  rfl

theorem tableOf_eq_nil {keep : String → LineCount → Bool}
    (hnone : ∀ l ∈ languages, files.filter (keep l) = []) :
    tableOf keep languages files = tableOf keep languages [] := by
  refine map_congr_left fun l hl => ?_
  rw [hnone l hl, filter_nil]

/-- Names can be judged when the directory does not begin with two slashes, or when there is no name
to judge. -/
theorem ownFiles_under (hunpacks : h.Unpacks root regular files)
    (hfine : ¬Path.BeginsTwice root ∨ NoneIn regular languages files) :
    (tableOf (isIn h.isRegular) languages (files.map (LineCount.under root))).ownFiles =
      .ok (tableOf (isOwn h.isRegular) languages (files.map (LineCount.under root))) := by
  rcases hfine with htwice | hnone
  · refine ownFiles_tableOf ?_
    rintro _ hmem -
    obtain ⟨c, hc, rfl⟩ := mem_map.mp hmem
    exact (isNamed_under hunpacks.absolute (hunpacks.relative c hc)).mpr htwice
  · have hin : ∀ l ∈ languages,
        (files.map (LineCount.under root)).filter (isIn h.isRegular l) = [] := by
      intro l hl
      rw [filter_under hunpacks, hnone l hl, map_nil]
    have hown : ∀ l ∈ languages,
        (files.map (LineCount.under root)).filter (isOwn h.isRegular l) = [] := by
      intro l hl
      rw [filter_isOwn, hin l hl, filter_nil]
    rw [tableOf_eq_nil hin, tableOf_eq_nil hown]
    exact ownFiles_tableOf (by simp)

theorem filterM_of_beginsTwice {fs : List SourceFile} (hne : fs ≠ [])
    (htwice : ∀ f ∈ fs, Path.BeginsTwice f.name) :
    fs.filterM (fun f => do return !(← looksVendored (.str f.name))) =
      (.error .endless : Outcome (List SourceFile)) := by
  cases fs with
  | nil => exact absurd rfl hne
  | cons f fs =>
    have hf := htwice f mem_cons_self
    have hempty : f.name ≠ "" := by
      intro hempty
      rw [hempty] at hf
      exact absurd hf (by decide)
    rw [List.filterM, List.filterAuxM, looksVendored_str, if_neg hempty, if_pos hf]
    rfl

theorem ownFiles_of_beginsTwice {t : SourceTable} (hsome : ∃ e ∈ t, e.2 ≠ [])
    (htwice : ∀ e ∈ t, ∀ f ∈ e.2, Path.BeginsTwice f.name) : t.ownFiles = .error .endless := by
  cases hown : t.ownFiles with
  | error fault =>
    obtain ⟨⟨l, fs⟩, he, hfault⟩ := exists_of_mapM_eq_error hown
    by_cases hne : fs = []
    · subst hne
      cases hfault
    · dsimp only at hfault
      rw [filterM_of_beginsTwice hne (htwice _ he)] at hfault
      cases hfault
      rfl
  | ok own =>
    obtain ⟨e, he, hne⟩ := hsome
    obtain ⟨e', -, hread⟩ := exists_of_mem_right (mapM_eq_ok.mp hown).flip he
    dsimp only at hread
    rw [filterM_of_beginsTwice hne (htwice e he)] at hread
    cases hread

theorem ownFiles_under_of_beginsTwice (hunpacks : h.Unpacks root regular files)
    (htwice : Path.BeginsTwice root) (hsome : ¬NoneIn regular languages files) :
    (tableOf (isIn h.isRegular) languages (files.map (LineCount.under root))).ownFiles =
      .error .endless := by
  apply ownFiles_of_beginsTwice
  · obtain ⟨l, hl, hne⟩ : ∃ l ∈ languages, files.filter (isIn regular l) ≠ [] := by
      simpa [NoneIn] using hsome
    refine ⟨_, mem_map_of_mem hl, ?_⟩
    rw [filter_under hunpacks]
    simpa using hne
  · intro e he f hf
    obtain ⟨l, -, rfl⟩ := mem_map.mp he
    obtain ⟨d, hd, rfl⟩ := mem_map.mp hf
    obtain ⟨c, hc, rfl⟩ := mem_map.mp (mem_of_mem_filter hd)
    exact (beginsTwice_join (ne_empty_of_isAbsolute hunpacks.absolute)
      (head?_of_not_isAbsolute (hunpacks.relative c hc))).mpr htwice

/-- Below a directory that is given from the root of all files on, the files are selected by their
names in the project and by the directory. -/
theorem ownSourceFiles_run_of_unpacks (hunpacks : h.Unpacks root regular files)
    (hregistry : Registry.languagesOf registry = .ok languages) :
    (ownSourceFiles root registry).run h =
      ((selection root regular languages files).map (SourceTable.under root), h) := by
  have hall := allSourceFiles_run_of_unpacks hunpacks hregistry
  rw [selection]
  by_cases hfine : ¬Path.BeginsTwice root ∨ NoneIn regular languages files
  · rw [ownSourceFiles_run_of_all hall (ownFiles_under hunpacks hfine), tableOf_under hunpacks]
    have hstops : ¬(Path.BeginsTwice root ∧ ¬NoneIn regular languages files) := by tauto
    by_cases hadds : AddsUp regular languages files
    · rw [if_pos ((addsUp_under hunpacks).mpr hadds), if_neg (not_not_intro hadds), if_neg hstops]
      rfl
    · rw [if_neg (mt (addsUp_under hunpacks).mp hadds), if_pos hadds]
      rfl
  · have hstops : Path.BeginsTwice root ∧ ¬NoneIn regular languages files := by tauto
    have htotals := addsUp_tableOf (isIn h.isRegular) languages (files.map (LineCount.under root))
    rw [ownSourceFiles, run_bind_of_ok hall]
    by_cases hadds : AddsUp regular languages files
    · rw [if_pos ((addsUp_under hunpacks).mpr hadds)] at htotals
      rw [if_neg (not_not_intro hadds), if_pos hstops, run_lift_bind htotals,
        ownFiles_under_of_beginsTwice hunpacks hstops.1 hstops.2]
      rfl
    · rw [if_neg (mt (addsUp_under hunpacks).mp hadds)] at htotals
      rw [if_pos hadds, htotals]
      rfl

end

/-! ### Two directories -/

/-- For each language the number of its files. -/
def sizes (t : SourceTable) : List (String × ℕ) := t.map fun e => (e.1, e.2.length)

theorem sizes_under (root : String) (t : SourceTable) : sizes (t.under root) = sizes t := by
  rw [sizes, SourceTable.under, map_map]
  refine map_congr_left fun e _ => ?_
  rw [Function.comp_apply, length_map]

def NoneOwn (regular : String → Bool) (languages : List String) (files : List LineCount) : Prop :=
  ∀ l ∈ languages, files.filter (isOwn regular l) = []

section
variable {root root' : String} {regular : String → Bool} {files : List LineCount}
  {languages : List String}

theorem selection_of_not_addsUp (hadds : ¬AddsUp regular languages files) :
    selection root regular languages files = .error (.badValue "") := if_pos hadds

theorem noneOwn_of_noneIn (hnone : NoneIn regular languages files) :
    NoneOwn regular languages files := by
  intro l hl
  rw [filter_isOwn, hnone l hl, filter_nil]

theorem tableOf_of_noneOwn (hown : NoneOwn regular languages files) (p : Bool) :
    tableOf (fun l c => isOwn regular l c && !p) languages files =
      languages.map fun l => (l, []) := by
  refine map_congr_left fun l hl => ?_
  have hkeep : (files.filter fun c => isOwn regular l c && !p) = [] := by
    have hnot := filter_eq_nil_iff.mp (hown l hl)
    rw [filter_eq_nil_iff]
    exact fun c hc hboth => hnot c hc (Bool.and_eq_true_iff.mp hboth).1
  rw [hkeep, map_nil]

theorem selection_of_noneIn (hadds : AddsUp regular languages files)
    (hnone : NoneIn regular languages files) :
    selection root regular languages files = .ok (languages.map fun l => (l, [])) := by
  rw [selection, if_neg (not_not_intro hadds), if_neg fun hboth => hboth.2 hnone,
    tableOf_of_noneOwn (noneOwn_of_noneIn hnone)]

theorem selection_of_some (hadds : AddsUp regular languages files)
    (hsome : ¬NoneIn regular languages files) :
    selection root regular languages files =
      if Path.BeginsTwice root then .error .endless
      else .ok (tableOf (fun l c => isOwn regular l c && !isThirdPartyPlace root) languages files) := by
  rw [selection, if_neg (not_not_intro hadds)]
  simp only [hsome, not_false_eq_true, and_true]

/-- A directory for third-party code shows in the numbers of files, unless all of them are zero. -/
theorem of_sizes_tableOf {p q : Bool}
    (hsizes : sizes (tableOf (fun l c => isOwn regular l c && !p) languages files) =
      sizes (tableOf (fun l c => isOwn regular l c && !q) languages files)) :
    p = q ∨ NoneOwn regular languages files := by
  rw [sizes, sizes, tableOf, tableOf, map_map, map_map, map_inj_left] at hsizes
  by_cases hpq : p = q
  · exact .inl hpq
  · right
    intro l hl
    have hlength := (Prod.mk.inj (hsizes l hl)).2
    rw [length_map, length_map] at hlength
    -- one of the two lists is empty and the other one has all files
    cases p <;> cases q
    · exact absurd rfl hpq
    · simpa using hlength
    · simpa using hlength.symm
    · exact absurd rfl hpq

/-- Both directories begin with two slashes or none does, and in this case both are places for
third-party code or neither is, unless no file is the project's own anyway. -/
def TreatAlike (root root' : String) (regular : String → Bool) (languages : List String)
    (files : List LineCount) : Prop :=
  (Path.BeginsTwice root ↔ Path.BeginsTwice root') ∧
    (Path.BeginsTwice root ∨ isThirdPartyPlace root = isThirdPartyPlace root' ∨
      NoneOwn regular languages files)

/-- A difference between directories shows in the numbers of files. -/
theorem treatAlike_of_sizes (hadds : AddsUp regular languages files)
    (hsome : ¬NoneIn regular languages files)
    (hsizes : (selection root regular languages files).map sizes =
      (selection root' regular languages files).map sizes) :
    TreatAlike root root' regular languages files := by
  rw [selection_of_some hadds hsome, selection_of_some hadds hsome] at hsizes
  by_cases htwice : Path.BeginsTwice root <;> by_cases htwice' : Path.BeginsTwice root'
  · exact ⟨iff_of_true htwice htwice', .inl htwice⟩
  · rw [if_pos htwice, if_neg htwice'] at hsizes
    cases hsizes
  · rw [if_neg htwice, if_pos htwice'] at hsizes
    cases hsizes
  · rw [if_neg htwice, if_neg htwice'] at hsizes
    exact ⟨iff_of_false htwice htwice', .inr (of_sizes_tableOf (Except.ok.inj hsizes))⟩

theorem selection_congr (hadds : AddsUp regular languages files)
    (hsome : ¬NoneIn regular languages files) (halike : TreatAlike root root' regular languages files) :
    selection root regular languages files = selection root' regular languages files := by
  obtain ⟨hboth, hplace⟩ := halike
  rw [selection_of_some hadds hsome, selection_of_some hadds hsome]
  by_cases htwice : Path.BeginsTwice root
  · rw [if_pos htwice, if_pos (hboth.mp htwice)]
  · rw [if_neg htwice, if_neg (mt hboth.mpr htwice)]
    rcases hplace with hfalse | hplace | hown
    · exact absurd hfalse htwice
    · rw [hplace]
    · rw [tableOf_of_noneOwn hown, tableOf_of_noneOwn hown]

end

theorem map_sizes_under (root : String) (o : Outcome SourceTable) :
    (o.map (SourceTable.under root)).map sizes = o.map sizes := by
  cases o with
  | error e => rfl
  | ok t => exact congrArg Except.ok (sizes_under root t)

/-- Two directories make no difference to what is selected in a project when its lines of code cannot
be reported, when no file is in the languages of the registry, or when they treat the files alike. -/
theorem ownSourceFiles_same_iff {h₁ h₂ : Host} {root₁ root₂ registry : String}
    {regular : String → Bool} {files : List LineCount} {languages : List String}
    (hunpacks₁ : h₁.Unpacks root₁ regular files) (hunpacks₂ : h₂.Unpacks root₂ regular files)
    (hregistry : Registry.languagesOf registry = .ok languages) :
    (∃ o : Outcome SourceTable,
      (ownSourceFiles root₁ registry).run h₁ = (o.map (SourceTable.under root₁), h₁) ∧
      (ownSourceFiles root₂ registry).run h₂ = (o.map (SourceTable.under root₂), h₂)) ↔
    ¬AddsUp regular languages files ∨ NoneIn regular languages files ∨
      TreatAlike root₁ root₂ regular languages files := by
  rw [ownSourceFiles_run_of_unpacks hunpacks₁ hregistry,
    ownSourceFiles_run_of_unpacks hunpacks₂ hregistry]
  by_cases hadds : AddsUp regular languages files
  · by_cases hnone : NoneIn regular languages files
    · rw [selection_of_noneIn hadds hnone, selection_of_noneIn hadds hnone]
      exact iff_of_true ⟨_, rfl, rfl⟩ (.inr (.inl hnone))
    · constructor
      · rintro ⟨o, ho₁, ho₂⟩
        have hsizes₁ := congrArg (fun r => r.1.map sizes) ho₁
        have hsizes₂ := congrArg (fun r => r.1.map sizes) ho₂
        simp only [map_sizes_under] at hsizes₁ hsizes₂
        exact .inr (.inr (treatAlike_of_sizes hadds hnone (hsizes₁.trans hsizes₂.symm)))
      · rintro (hnot | hnot | halike)
        · exact absurd hadds hnot
        · exact absurd hnot hnone
        · exact ⟨_, rfl, by rw [selection_congr hadds hnone halike]⟩
  · rw [selection_of_not_addsUp hadds, selection_of_not_addsUp hadds]
    exact iff_of_true ⟨.error (.badValue ""), rfl, rfl⟩ (.inl hadds)

/-! ### A project in three places -/

/-- A file of the project, one of third parties, and one that is gone. -/
def webFiles : List LineCount :=
  [⟨"src/a.js", 3, "JavaScript"⟩, ⟨"vendor/b.js", 5, "JavaScript"⟩, ⟨"lost.js", 1, "JavaScript"⟩]

def isWebFile (name : String) : Bool := name == "src/a.js" || name == "vendor/b.js"

def webHost (way : List String) : Host where
  files := (FileTree.folder []).put (.folder [("src", .folder [("a.js", .file (.text ""))]),
    ("vendor", .folder [("b.js", .file (.text ""))])]) way
  lineReport := .object (webFiles.map countsOf)

theorem unpacks_webHost {way : List String} {root : String} (hroot : isAbsolute root = true)
    (hregular : ∀ c ∈ webFiles, (webHost way).isRegular (join root c.path) = isWebFile c.path) :
    (webHost way).Unpacks root isWebFile webFiles := by
  refine ⟨hroot, rfl, rfl, ⟨webFiles.map countsOf, rfl, ?_⟩, by decide, by decide, hregular⟩
  exact forall₂_map_left_iff.mpr (forall₂_same.mpr fun c _ => isEntry_countsOf _ c)

theorem addsUp_webFiles (languages : List String) : AddsUp isWebFile languages webFiles := by
  intro l _
  have hfew : total webFiles < 10 ^ Json.digitLimit :=
    (by decide : total webFiles < 10 ^ 2).trans_le (Nat.pow_le_pow_right (by decide) (by decide))
  exact (total_filter_le _ _).trans_lt hfew

theorem unpacks_srv : (webHost ["srv", "proj"]).Unpacks "/srv/proj" isWebFile webFiles :=
  unpacks_webHost (by decide) (by decide +kernel)

theorem unpacks_vendor :
    (webHost ["srv", "vendor", "proj"]).Unpacks "/srv/vendor/proj" isWebFile webFiles :=
  unpacks_webHost (by decide) (by decide +kernel)

theorem ownSourceFiles_same_webFiles :
    (¬∃ o : Outcome SourceTable,
      (ownSourceFiles "/srv/proj" "npm").run (webHost ["srv", "proj"]) =
        (o.map (SourceTable.under "/srv/proj"), webHost ["srv", "proj"]) ∧
      (ownSourceFiles "/srv/vendor/proj" "npm").run (webHost ["srv", "vendor", "proj"]) =
        (o.map (SourceTable.under "/srv/vendor/proj"), webHost ["srv", "vendor", "proj"])) ∧
    ∃ o : Outcome SourceTable,
      (ownSourceFiles "/srv/proj" "npm").run (webHost ["srv", "proj"]) =
        (o.map (SourceTable.under "/srv/proj"), webHost ["srv", "proj"]) ∧
      (ownSourceFiles "/home/" "npm").run (webHost ["home"]) =
        (o.map (SourceTable.under "/home/"), webHost ["home"]) := by
  have hnpm : Registry.languagesOf "npm" = .ok ["javascript", "typescript"] := rfl
  have hhome : (webHost ["home"]).Unpacks "/home/" isWebFile webFiles :=
    unpacks_webHost (by decide) (by decide +kernel)
  have hsome : ¬NoneIn isWebFile ["javascript", "typescript"] webFiles := by decide +kernel
  constructor
  · rw [ownSourceFiles_same_iff unpacks_srv unpacks_vendor hnpm]
    rintro (hadds | hnone | ⟨-, htwice | hplace | hown⟩)
    · exact hadds (addsUp_webFiles _)
    · exact hsome hnone
    · exact absurd htwice (by decide)
    · exact absurd hplace (by decide +kernel)
    · exact absurd (hown "javascript" (by simp)) (by decide +kernel)
  · rw [ownSourceFiles_same_iff unpacks_srv hhome hnpm]
    exact .inr (.inr ⟨by decide, .inr (.inl (by decide +kernel))⟩)

/-- The same project has a file of its own, and below a directory for third-party code it has none. -/
theorem ownSourceFiles_below_vendor :
    (ownSourceFiles "/srv/proj" "npm").run (webHost ["srv", "proj"]) =
      (.ok [("javascript", [⟨"/srv/proj/src/a.js", .int 3⟩]), ("typescript", [])],
        webHost ["srv", "proj"]) ∧
    (ownSourceFiles "/srv/vendor/proj" "npm").run (webHost ["srv", "vendor", "proj"]) =
      (.ok [("javascript", []), ("typescript", [])], webHost ["srv", "vendor", "proj"]) := by
  have hnpm : Registry.languagesOf "npm" = .ok ["javascript", "typescript"] := rfl
  have hsome : ¬NoneIn isWebFile ["javascript", "typescript"] webFiles := by decide +kernel
  have hplace : isThirdPartyPlace "/srv/proj" = false := by decide +kernel
  have hplace' : isThirdPartyPlace "/srv/vendor/proj" = true := by decide +kernel
  constructor
  · have hjs : (webFiles.filter fun c => isOwn isWebFile "javascript" c && !false) =
        [⟨"src/a.js", 3, "JavaScript"⟩] := by decide +kernel
    have hts : (webFiles.filter fun c => isOwn isWebFile "typescript" c && !false) = [] := by
      decide +kernel
    rw [ownSourceFiles_run_of_unpacks unpacks_srv hnpm,
      selection_of_some (addsUp_webFiles _) hsome, if_neg (by decide), hplace, tableOf,
      map_cons, map_cons, hjs, hts]
    rfl
  · have hnone (l : String) : (webFiles.filter fun c => isOwn isWebFile l c && !true) = [] := by simp
    rw [ownSourceFiles_run_of_unpacks unpacks_vendor hnpm,
      selection_of_some (addsUp_webFiles _) hsome, if_neg (by decide), hplace', tableOf,
      map_cons, map_cons, hnone, hnone]
    rfl

end Project
end RegexCorpus
