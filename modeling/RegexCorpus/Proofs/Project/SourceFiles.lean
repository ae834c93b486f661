import RegexCorpus.Project.SourceFiles
import RegexCorpus.Proofs.Path
import RegexCorpus.Proofs.Record.Filling

/-!
# The project's own source files

The counter of lines names files in any order, some of which are missing, links, in other languages
or of third parties. Entry by entry the files go to the lists of their languages; then the lists of
a registry are taken out, added up, freed from the files of third parties and added up again. No
file is lost, listed twice or put under another language on the way.
-/

namespace RegexCorpus
open List Value Outcome Json Text

variable {registry : String}

/-! ### What a report says -/

/-- A file in the report on lines of code. -/
structure LineCount where
  path : String
  code : ℕ
  language : String
  deriving DecidableEq

namespace LineCount

def source (c : LineCount) : SourceFile := { name := c.path, code := .int c.code }

/-- A regular file in a language, in letters of either case. -/
def isIn (regular : String → Bool) (language : String) (c : LineCount) : Bool :=
  regular c.path && Text.lower c.language == language

/-- A directory on the way to the file has a name for third-party code, in letters of either
case. -/
def isVendored (c : LineCount) : Bool :=
  (Path.directories c.path).any fun d => Project.thirdPartyNames.contains (Text.lower d)

def isOwn (regular : String → Bool) (language : String) (c : LineCount) : Bool :=
  c.isIn regular language && !c.isVendored

def total (cs : List LineCount) : ℕ := (cs.map code).sum

theorem filter_isOwn (regular : String → Bool) (language : String) (cs : List LineCount) :
    cs.filter (isOwn regular language) =
      (cs.filter (isIn regular language)).filter (!·.isVendored) := by
  rw [filter_filter]
  refine filter_congr fun c _ => ?_
  rw [isOwn, Bool.and_comm]

theorem total_filter_le (keep : LineCount → Bool) (cs : List LineCount) :
    total (cs.filter keep) ≤ total cs := by
  induction cs with
  | nil => exact le_rfl
  | cons c cs ih =>
    simp only [total, filter_cons, map_cons, sum_cons] at ih ⊢
    split_ifs
    · rw [map_cons, sum_cons]
      omega
    · omega

/-- The entry of a report has the lines of code and the language of a file; entries that lead to no
regular file may hold anything. -/
structure IsEntry (regular : String → Bool) (m : String × Value) (c : LineCount) : Prop where
  path_eq : m.1 = c.path
  code_eq : regular c.path = true → m.2.get "code" = .ok (.int c.code)
  language_eq : regular c.path = true → m.2.get "language" = .ok (.str c.language)

end LineCount

structure Host.Reports (h : Host) (dir : String) (files : List LineCount) : Prop where
  code_eq : h.lineCode = 0
  readable : Json.checkLimits Json.nestingLimit h.lineReport = .ok ()
  report_eq : ∃ ms, Project.placed dir h.lineReport = .object ms ∧
    List.Forall₂ (LineCount.IsEntry h.isRegular) ms files
  nodup : (files.map LineCount.path).Nodup
  rooted : ∀ c ∈ files, ¬Path.BeginsTwice c.path

theorem Host.isRegular_ne_empty {h : Host} {path : String} (hpath : h.isRegular path = true) :
    path ≠ "" := by
  rintro rfl
  simp [Host.isRegular, Host.isFile, Host.at?, FileTree.resolve] at hpath

theorem Host.Reports.paths {h : Host} {dir : String} {files : List LineCount}
    (hfiles : h.Reports dir files) :
    ∀ c ∈ files, h.isRegular c.path = true → c.path ≠ "" ∧ ¬Path.BeginsTwice c.path :=
  fun c hc hregular => ⟨Host.isRegular_ne_empty hregular, hfiles.rooted c hc⟩

/-! ### Files of third parties -/

namespace Project

theorem thirdParty_imp_isName {c : String} (h : thirdPartyNames.contains (lower c) = true) :
    Path.isName c = true := by
  rw [Path.isName, Bool.and_eq_true, bne_iff_ne, bne_iff_ne]
  constructor
  · rintro rfl
    revert h
    decide
  · rintro rfl
    revert h
    decide

/-- Components that name nothing do not count. -/
theorem any_thirdParty_filter (cs : List String) :
    (cs.any fun c => thirdPartyNames.contains (lower c)) =
      (cs.filter Path.isName).any fun c => thirdPartyNames.contains (lower c) := by
  rw [any_filter]
  refine any_congr rfl fun c => ?_
  cases hc : thirdPartyNames.contains (lower c) with
  | false => rw [Bool.and_false]
  | true => rw [thirdParty_imp_isName hc, Bool.and_true]

theorem looksVendored_eq {path : String} (hempty : path ≠ "") (h : ¬Path.BeginsTwice path) :
    looksVendored (.str path) =
      .ok ((Path.directories path).any fun d => thirdPartyNames.contains (lower d)) := by
  obtain ⟨cs, hcs⟩ := Path.exists_components h
  obtain ⟨ds, last, rfl, hds⟩ := Path.exists_components_concat hempty hcs
  have hof : componentsOf (.str path) = .ok (ds ++ [last]) := by
    rw [componentsOf, hcs]
  have hsome : (ds ++ [last]).isEmpty = false := by simp
  rw [looksVendored, hof, ok_bind, hsome, dropLast_concat, any_thirdParty_filter ds,
    hds, ← any_thirdParty_filter]
  rfl

end Project

/-! ### The table of a report -/

variable {ms : Members}

namespace SourceTable
open LineCount

variable {regular : String → Bool} {languages : List String} {files : List LineCount}
variable {c : LineCount} {l : String} {keep : String → LineCount → Bool}

def tableOf (keep : String → LineCount → Bool) (languages : List String) (files : List LineCount) :
    SourceTable :=
  languages.map fun l => (l, (files.filter (keep l)).map source)

theorem filter_concat (keep : LineCount → Bool) (c : LineCount) :
    ((files ++ [c]).filter keep).map source =
      (files.filter keep).map source ++ if keep c then [c.source] else [] := by
  rw [filter_append, map_append]
  cases hc : keep c <;> simp [hc]

theorem add_tableOf (hc : regular c.path = true) :
    (tableOf (isIn regular) languages files).add (lower c.language) c.source =
      tableOf (isIn regular) languages (files ++ [c]) := by
  rw [add, tableOf, tableOf, map_map]
  refine map_congr_left fun l _ => ?_
  rw [filter_concat, isIn, hc, Bool.true_and]
  by_cases hl : l = lower c.language
  · simp [hl]
  · simp [hl, Ne.symm hl]

theorem tableOf_concat_of_not_regular (hc : regular c.path = false) :
    tableOf (isIn regular) languages (files ++ [c]) = tableOf (isIn regular) languages files := by
  refine map_congr_left fun l _ => ?_
  rw [filter_concat, isIn, hc]
  simp

theorem addEntry_tableOf {m : String × Value} (hm : IsEntry regular m c)
    (hc : regular c.path = true) :
    (tableOf (isIn regular) languages files).addEntry m.1 m.2 =
      .ok (tableOf (isIn regular) languages (files ++ [c])) := by
  rw [addEntry, hm.code_eq hc, ok_bind, hm.language_eq hc, ok_bind, Value.text,
    ok_bind, hm.path_eq, ← add_tableOf hc]
  rfl

theorem foldlM_tableOf {report : Value} (hms : ∀ m ∈ ms, report.get m.1 = .ok m.2)
    (before : List LineCount) (h : List.Forall₂ (IsEntry regular) ms files) :
    (ms.foldlM (fun t m => do
        if regular m.1 then t.addEntry m.1 (← report.get m.1) else return t)
      (tableOf (isIn regular) languages before) : Outcome SourceTable) =
      .ok (tableOf (isIn regular) languages (before ++ files)) := by
  induction h generalizing before with
  | nil => rw [append_nil]; rfl
  | @cons m c ms files hm _ ih =>
    rw [forall_mem_cons] at hms
    rw [foldlM_cons, hm.path_eq, append_cons]
    cases hc : regular c.path with
    | false =>
      rw [← tableOf_concat_of_not_regular hc]
      exact ih hms.2 _
    | true =>
      rw [if_pos rfl, ← hm.path_eq, hms.1, ok_bind, addEntry_tableOf hm hc, ok_bind]
      exact ih hms.2 _

theorem ofReport_object (hkeys : (files.map path).Nodup)
    (h : List.Forall₂ (IsEntry regular) ms files) :
    ofReport regular (.object ms) = .ok (tableOf (isIn regular) Registry.allLanguages files) := by
  have hpaths : ms.map Prod.fst = files.map path :=
    map_eq_map_of_forall₂ (fun _ _ hm => hm.path_eq) h
  have hget : ∀ m ∈ ms, (Value.object ms).get m.1 = .ok m.2 := fun m hm =>
    get_object_eq_ok.mpr (find?_entriesOf (hpaths ▸ hkeys) hm)
  rw [ofReport, parts_object, ok_bind, foldlM_map]
  exact foldlM_tableOf hget [] h

/-! ### Taking out the lists of a registry -/

theorem find?_key {α : Type} (hl : l ∈ languages) (f : String → α) :
    (languages.map fun l => (l, f l)).find? (·.1 == l) = some (l, f l) := by
  induction languages with
  | nil => simp at hl
  | cons k languages ih =>
    by_cases hk : k = l
    · simp [hk]
    · rw [map_cons, find?_cons_of_neg (by simpa using hk)]
      exact ih (mem_of_ne_of_mem (Ne.symm hk) hl)

theorem filesOf_tableOf (hl : l ∈ languages) :
    (tableOf keep languages files).filesOf l = .ok ((files.filter (keep l)).map source) := by
  rw [filesOf, tableOf, find?_key hl]

theorem mapM_filesOf {all : List String} (h : languages ⊆ all) :
    (languages.mapM fun l => do return (l, ← (tableOf keep all files).filesOf l) :
      Outcome SourceTable) = .ok (tableOf keep languages files) := by
  refine mapM_eq_ok.mpr (forall₂_map_right_iff.mpr (forall₂_same.mpr fun l hl => ?_))
  rw [filesOf_tableOf (h hl)]
  rfl

/-! ### Totals -/

theorem codeLines_eq (cs : List LineCount) :
    Project.codeLines ((cs.map source).map SourceFile.toValue) = .ok (.int (total cs)) := by
  have h (n : ℕ) : ((cs.map source).map SourceFile.toValue).foldlM
      (fun (sum : Value) f => do sum.add (← f.get "LOC")) (.int n) =
        (.ok (.int (n + total cs : ℕ)) : Outcome Value) := by
    induction cs generalizing n with
    | nil => rfl
    | cons c cs ih =>
      have hadd : (Value.int n).add (.int c.code) = .ok (.int (n + c.code : ℕ)) := rfl
      have hloc : c.source.toValue.get "LOC" = .ok (.int c.code) := rfl
      rw [map_cons, map_cons, foldlM_cons, hloc, ok_bind, hadd,
        ok_bind, ih, total, total, map_cons, sum_cons, Nat.add_assoc]
  have hzero := h 0
  rw [Nat.zero_add] at hzero
  exact hzero

theorem checkAtom_cases (a : Atom) :
    checkAtom a = .ok () ∨ checkAtom a = .error (.badValue "") := by
  unfold checkAtom
  split
  · split_ifs
    · exact .inr rfl
    · exact .inl rfl
  · exact .inl rfl

theorem codeText_eq (cs : List LineCount) :
    Project.codeText ((cs.map source).map SourceFile.toValue) =
      if total cs < 10 ^ digitLimit then .ok (Value.int (total cs)).display
      else .error (.badValue "") := by
  rw [Project.codeText, codeLines_eq, ok_bind, checkLimits]
  have hshort := checkAtom_eq_ok (a := .int (total cs))
  rw [short_int, Int.natAbs_natCast] at hshort
  rcases checkAtom_cases (.int (total cs)) with hok | herror
  · rw [hok, if_pos (hshort.mp hok)]
    rfl
  · rw [herror, if_neg fun h => by simp [hshort.mpr h] at herror]
    rfl

theorem reportLanguages_run {table : Value} {cs : String → List LineCount}
    (h : ∀ l ∈ languages, table.item (.str l) =
      .ok (.list (((cs l).map source).map SourceFile.toValue))) (lines : List String) :
    ((Project.reportLanguages table (languages.map .str)).run lines).1 =
      if ∀ l ∈ languages, total (cs l) < 10 ^ digitLimit then .ok ()
      else .error (.badValue "") := by
  induction languages generalizing lines with
  | nil => rfl
  | cons l languages ih =>
    rw [forall_mem_cons] at h
    have hfiles : (do (← table.item (.str l)).parts : Outcome (List Value)) =
        .ok (((cs l).map source).map SourceFile.toValue) := by
      rw [h.1]
      rfl
    rw [map_cons, Project.reportLanguages, run_lift_bind hfiles]
    have htext := codeText_eq (cs l)
    by_cases hl : total (cs l) < 10 ^ digitLimit
    · rw [if_pos hl] at htext
      rw [run_lift_bind htext, run_modify_bind, ih h.2]
      simp [hl]
    · rw [if_neg hl] at htext
      rw [htext, if_neg fun hall => hl (hall l mem_cons_self)]
      rfl

theorem item_tableOf (hl : l ∈ languages) :
    (tableOf keep languages files).toValue.item (.str l) =
      .ok (.list (((files.filter (keep l)).map source).map SourceFile.toValue)) := by
  refine get_object_eq_ok.mpr ?_
  rw [findMember_eq, tableOf, map_map]
  have hfind := find?_key hl fun l =>
    Value.list (((files.filter (keep l)).map source).map SourceFile.toValue)
  exact congrArg (Option.map Prod.snd) hfind

theorem addsUp_tableOf (keep : String → LineCount → Bool) (languages : List String)
    (files : List LineCount) :
    (tableOf keep languages files).addsUp =
      if ∀ l ∈ languages, total (files.filter (keep l)) < 10 ^ digitLimit then .ok ()
      else .error (.badValue "") := by
  have hparts : (tableOf keep languages files).toValue.parts = .ok (languages.map .str) := by
    rw [toValue, parts_object, tableOf, map_map, map_map]
    rfl
  rw [addsUp, Project.report, run_modify_bind, run_lift_bind hparts]
  exact reportLanguages_run (fun l hl => item_tableOf hl) _

/-! ### The project's own files -/

theorem filterM_own (h : ∀ c ∈ files, regular c.path = true →
      c.path ≠ "" ∧ ¬Path.BeginsTwice c.path) (l : String) :
    ((files.filter (isIn regular l)).map source).filterM
      (fun f => do return !(← Project.looksVendored (.str f.name))) =
        (.ok ((files.filter (isOwn regular l)).map source) : Outcome (List SourceFile)) := by
  rw [filterM_eq_ok (q := fun f => !(Path.directories f.name).any fun d =>
    Project.thirdPartyNames.contains (lower d)), filter_map, filter_isOwn]
  · rfl
  · intro f hf
    obtain ⟨c, hc, rfl⟩ := mem_map.mp hf
    obtain ⟨hc, hin⟩ := mem_filter.mp hc
    obtain ⟨hempty, hrooted⟩ := h c hc (Bool.and_eq_true_iff.mp hin).1
    have hname : c.source.name = c.path := rfl
    rw [hname, Project.looksVendored_eq hempty hrooted]
    rfl

theorem ownFiles_tableOf (h : ∀ c ∈ files, regular c.path = true →
      c.path ≠ "" ∧ ¬Path.BeginsTwice c.path) :
    (tableOf (isIn regular) languages files).ownFiles =
      .ok (tableOf (isOwn regular) languages files) := by
  rw [ownFiles, tableOf, mapM_map]
  refine mapM_eq_ok.mpr (forall₂_map_right_iff.mpr (forall₂_same.mpr fun l _ => ?_))
  dsimp only [Function.comp_apply]
  rw [filterM_own h]
  rfl

end SourceTable

/-! ### Registries -/

theorem Registry.mem_of_languagesOf {languages : List String}
    (h : languagesOf registry = .ok languages) : (registry, languages) ∈ sourceLanguages := by
  unfold languagesOf at h
  split at h
  · rename_i key ls hfind
    cases h
    have hkey : key = registry := by simpa using find?_some hfind
    exact hkey ▸ mem_of_find?_eq_some hfind
  · cases h

theorem Registry.languages_subset {languages : List String}
    (h : languagesOf registry = .ok languages) : languages ⊆ allLanguages :=
  fun _ hl => mem_flatMap.mpr ⟨_, mem_of_languagesOf h, hl⟩

theorem Registry.isKnown_lower {languages : List String} (h : languagesOf registry = .ok languages) :
    isKnown (.str (lower registry)) = true := by
  have hall : ∀ e ∈ sourceLanguages, isKnown (.str (lower e.1)) = true := by decide +kernel
  exact hall (registry, languages) (mem_of_languagesOf h)

/-! ### The run -/

namespace Project
open LineCount SourceTable

variable {h : Host} {dir registry : String}

theorem summary_run_of_failed (hcode : h.lineCode ≠ 0) (dir : String) (regular : String → Bool) :
    (summary dir).run h = (.ok (tableOf (isIn regular) Registry.allLanguages []), h) := by
  have hreport : (lineReport dir).run h = (.error .checkedCommandFailed, h) := by
    rw [lineReport, run_get_state_bind, if_pos (by simpa using hcode)]
    rfl
  rw [summary, Act.orElse, run_tryCatch, run_bind, hreport]
  rfl

theorem summary_run_of_report {files : List LineCount} (hcode : h.lineCode = 0)
    (hreadable : checkLimits nestingLimit h.lineReport = .ok ())
    (hplaced : placed dir h.lineReport = .object ms)
    (hms : List.Forall₂ (IsEntry h.isRegular) ms files) (hnodup : (files.map path).Nodup) :
    (summary dir).run h = (.ok (tableOf (isIn h.isRegular) Registry.allLanguages files), h) := by
  have hreport : (lineReport dir).run h = (.ok (.object ms), h) := by
    rw [lineReport, run_get_state_bind, if_neg (by simp [hcode]), ← hplaced]
    exact run_lift_bind hreadable _ h
  have htable := ofReport_object hnodup hms
  rw [summary, Act.orElse, run_tryCatch, run_bind_of_ok hreport, run_get_state_bind, htable]
  rfl

theorem summary_run {files : List LineCount} (hfiles : h.Reports dir files) :
    (summary dir).run h = (.ok (tableOf (isIn h.isRegular) Registry.allLanguages files), h) := by
  obtain ⟨ms, hplaced, hms⟩ := hfiles.report_eq
  exact summary_run_of_report hfiles.code_eq hfiles.readable hplaced hms hfiles.nodup

theorem allSourceFiles_run_of_summary {languages : List String}
    {regular : String → Bool} {files : List LineCount}
    (hregistry : Registry.languagesOf registry = .ok languages)
    (hsummary : (summary dir).run h =
      (.ok (tableOf (isIn regular) Registry.allLanguages files), h)) :
    (allSourceFiles dir registry).run h = (.ok (tableOf (isIn regular) languages files), h) := by
  rw [allSourceFiles,
    run_lift_bind (require_eq_ok (u := ()).mpr (Registry.isKnown_lower hregistry)),
    run_bind_of_ok hsummary, run_lift_bind hregistry,
    mapM_filesOf (Registry.languages_subset hregistry)]
  rfl

theorem ownSourceFiles_run_of_all {languages : List String}
    {regular : String → Bool} {files : List LineCount}
    (hall : (allSourceFiles dir registry).run h = (.ok (tableOf (isIn regular) languages files), h))
    (hown : (tableOf (isIn regular) languages files).ownFiles =
      .ok (tableOf (isOwn regular) languages files)) :
    (ownSourceFiles dir registry).run h =
      if ∀ l ∈ languages, total (files.filter (isIn regular l)) < 10 ^ digitLimit then
        (.ok (tableOf (isOwn regular) languages files), h)
      else (.error (.badValue ""), h) := by
  have htotals := addsUp_tableOf (isIn regular) languages files
  rw [ownSourceFiles, run_bind_of_ok hall]
  split_ifs with h
  · rw [if_pos h] at htotals
    -- the project's own files are among those added up before, so their totals are no larger
    have hfewer : ∀ l ∈ languages, total (files.filter (isOwn regular l)) < 10 ^ digitLimit :=
      fun l hl => by
        rw [filter_isOwn]
        exact (total_filter_le _ _).trans_lt (h l hl)
    have htotals' := addsUp_tableOf (isOwn regular) languages files
    rw [if_pos hfewer] at htotals'
    rw [run_lift_bind htotals, run_lift_bind hown, run_lift_bind htotals']
    rfl
  · rw [if_neg h] at htotals
    rw [htotals]
    rfl

theorem ownSourceFiles_run_of_summary {languages : List String} {regular : String → Bool}
    {files : List LineCount} (hregistry : Registry.languagesOf registry = .ok languages)
    (hsummary : (summary dir).run h = (.ok (tableOf (isIn regular) Registry.allLanguages files), h))
    (hpaths : ∀ c ∈ files, regular c.path = true → c.path ≠ "" ∧ ¬Path.BeginsTwice c.path) :
    (ownSourceFiles dir registry).run h =
      if ∀ l ∈ languages, total (files.filter (isIn regular l)) < 10 ^ digitLimit then
        (.ok (tableOf (isOwn regular) languages files), h)
      else (.error (.badValue ""), h) :=
  ownSourceFiles_run_of_all (allSourceFiles_run_of_summary hregistry hsummary)
    (ownFiles_tableOf hpaths)

/-! ### What selecting files leaves alone -/

theorem lineReport_state (dir : String) (h : Host) : ((lineReport dir).run h).2 = h := by
  rw [lineReport, run_get_state_bind]
  split_ifs
  · rfl
  · cases checkLimits nestingLimit h.lineReport <;> rfl

theorem summary_state (dir : String) (h : Host) : ((summary dir).run h).2 = h := by
  have hstate := lineReport_state dir h
  rw [summary, Act.orElse, run_tryCatch, run_bind]
  rcases hrun : (lineReport dir).run h with ⟨e | report, t⟩
  · rw [hrun] at hstate
    dsimp only at hstate ⊢
    rw [hstate]
    split_ifs <;> rfl
  · rw [hrun] at hstate
    dsimp only at hstate ⊢
    rw [hstate, run_get_state_bind]
    cases SourceTable.ofReport h.isRegular report with
    | error e =>
      have hlift : (liftM (.error e : Outcome SourceTable) : Act SourceTable).run h =
          (.error e, h) := rfl
      rw [hlift]
      dsimp only
      split_ifs <;> rfl
    | ok table => rfl

theorem ownSourceFiles_eq_ok {h' : Host} {own : SourceTable}
    (hrun : (ownSourceFiles dir registry).run h = (.ok own, h')) :
    h' = h ∧ Registry.languagesOf registry = .ok (own.map Prod.fst) := by
  obtain ⟨all, t, hall, hrun⟩ := run_bind_eq_ok.mp hrun
  obtain ⟨_, -, hrun⟩ := run_lift_bind_eq_ok.mp hrun
  obtain ⟨kept, hkept, hrun⟩ := run_lift_bind_eq_ok.mp hrun
  obtain ⟨_, -, hrun⟩ := run_lift_bind_eq_ok.mp hrun
  obtain ⟨rfl, rfl⟩ := run_pure_eq_ok.mp hrun
  obtain ⟨_, -, hall⟩ := run_lift_bind_eq_ok.mp hall
  obtain ⟨table, t', hsummary, hall⟩ := run_bind_eq_ok.mp hall
  obtain ⟨languages, hlanguages, hall⟩ := run_lift_bind_eq_ok.mp hall
  obtain ⟨hfiles, rfl⟩ := run_lift_eq_ok.mp hall
  have hstate := summary_state dir h
  rw [hsummary] at hstate
  refine ⟨hstate, ?_⟩
  -- neither taking out the lists nor freeing them from files touches a key
  have hkeys : languages.map id = all.map Prod.fst := by
    refine map_eq_map_of_forall₂ (fun l e he => ?_) (mapM_eq_ok.mp hfiles)
    obtain ⟨files, -, he⟩ := bind_eq_ok.mp he
    rw [← pure_eq_ok.mp he, id]
  have hkeys' : all.map Prod.fst = kept.map Prod.fst := by
    refine map_eq_map_of_forall₂ (fun l e he => ?_) (mapM_eq_ok.mp hkept)
    obtain ⟨files, -, he⟩ := bind_eq_ok.mp he
    rw [← pure_eq_ok.mp he]
  rw [hlanguages, ← hkeys', ← hkeys, map_id]

/-- For each language of a registry, and in the order of the report, the project's own source files
are the regular files in that language that are not under a directory for third-party code, each
once. Only a language whose lines of code have too many digits in all stops this; without a report
every list is empty. -/
theorem ownSourceFiles_run (dir : String) {registry : String} {languages : List String}
    (hregistry : Registry.languagesOf registry = .ok languages) :
    (∀ h : Host, h.lineCode ≠ 0 →
      (ownSourceFiles dir registry).run h = (.ok (languages.map fun l => (l, [])), h)) ∧
    ∀ (h : Host) (files : List LineCount), h.Reports dir files →
      ((ownSourceFiles dir registry).run h =
        if ∀ l ∈ languages, total (files.filter (isIn h.isRegular l)) < 10 ^ Json.digitLimit then
          (.ok (languages.map fun l => (l, (files.filter (isOwn h.isRegular l)).map source)), h)
        else (.error (.badValue ""), h)) ∧
      ∀ l ∈ languages, ((files.filter (isOwn h.isRegular l)).map path).Nodup := by
  constructor
  · intro h hcode
    have hrun := ownSourceFiles_run_of_summary hregistry
      (summary_run_of_failed hcode dir h.isRegular) (by simp)
    rwa [if_pos fun l _ => by simp [total]] at hrun
  · intro h files hfiles
    exact ⟨ownSourceFiles_run_of_summary hregistry (summary_run hfiles) hfiles.paths,
      fun l _ => hfiles.nodup.sublist (filter_sublist.map path)⟩

def countsOf (c : LineCount) : String × Value :=
  (c.path, .object [("blank", .int 0), ("code", .int c.code), ("language", .str c.language)])

theorem isEntry_countsOf (regular : String → Bool) (c : LineCount) :
    IsEntry regular (countsOf c) c :=
  ⟨rfl, fun _ => rfl, fun _ => rfl⟩

def mixedFiles : List LineCount :=
  [⟨"src/b.ts", 5, "TypeScript"⟩, ⟨"src/a.js", 3, "JAVASCRIPT"⟩,
    ⟨"lib/Vendor/c.js", 7, "JavaScript"⟩, ⟨"link.js", 3, "JavaScript"⟩,
    ⟨"lost.js", 1, "JavaScript"⟩, ⟨"vendor", 2, "JavaScript"⟩]

/-- A project with files of its own, one of third parties, a link and a file that is gone. -/
def mixedProject : Host where
  files := .folder [
    ("src", .folder [("a.js", .file (.text "")), ("b.ts", .file (.text ""))]),
    ("lib", .folder [("Vendor", .folder [("c.js", .file (.text ""))])]),
    ("link.js", .link "src/a.js"), ("vendor", .file (.text ""))]
  lineReport := .object (mixedFiles.map countsOf)

theorem ownSourceFiles_mixedProject :
    mixedProject.Reports "." mixedFiles ∧
    (ownSourceFiles "." "npm").run mixedProject =
      (.ok [("javascript", [⟨"src/a.js", .int 3⟩, ⟨"vendor", .int 2⟩]),
        ("typescript", [⟨"src/b.ts", .int 5⟩])], mixedProject) := by
  have hreports : mixedProject.Reports "." mixedFiles := by
    refine ⟨rfl, rfl, ⟨mixedFiles.map countsOf, rfl, ?_⟩, by decide, by decide⟩
    exact forall₂_map_left_iff.mpr (forall₂_same.mpr fun c _ => isEntry_countsOf _ c)
  refine ⟨hreports, ?_⟩
  have hjs : mixedFiles.filter (isOwn mixedProject.isRegular "javascript") =
      [⟨"src/a.js", 3, "JAVASCRIPT"⟩, ⟨"vendor", 2, "JavaScript"⟩] := by decide +kernel
  have hts : mixedFiles.filter (isOwn mixedProject.isRegular "typescript") =
      [⟨"src/b.ts", 5, "TypeScript"⟩] := by decide +kernel
  have hfew : total mixedFiles < 10 ^ Json.digitLimit :=
    (by decide : total mixedFiles < 10 ^ 2).trans_le (Nat.pow_le_pow_right (by decide) (by decide))
  have htotal (l : String) :
      total (mixedFiles.filter (isIn mixedProject.isRegular l)) < 10 ^ Json.digitLimit :=
    (total_filter_le _ _).trans_lt hfew
  have hnpm : Registry.languagesOf "npm" = .ok ["javascript", "typescript"] := rfl
  rw [((ownSourceFiles_run "." hnpm).2 _ _ hreports).1,
    if_pos fun l _ => htotal l, map_cons, map_cons, hjs, hts]
  rfl

/-- Two files with the same number of lines of code. -/
def twinFiles (n : ℕ) : List LineCount := [⟨"a.py", n, "Python"⟩, ⟨"b.py", n, "Python"⟩]

def twinProject (n : ℕ) : Host where
  files := .folder [("a.py", .file (.text "x")), ("b.py", .file (.text "y"))]
  lineReport := .object ((twinFiles n).map countsOf)

theorem reports_twinProject {n : ℕ} (hn : n < 10 ^ digitLimit) :
    (twinProject n).Reports "." (twinFiles n) := by
  refine ⟨rfl, ?_, ⟨(twinFiles n).map countsOf, rfl, ?_⟩, ?_, ?_⟩
  · have hshort : (Atom.int n).Short := short_int.mpr hn
    have hzero : (Atom.int 0).Short := short_digit (by decide)
    rw [checkLimits_eq_ok]
    simp [twinProject, twinFiles, countsOf, Value.object, nestingLimit, within_dict,
      hshort, hzero]
  · exact forall₂_map_left_iff.mpr (forall₂_same.mpr fun c _ => isEntry_countsOf _ c)
  · simp [twinFiles]
  · have hpaths : ∀ p ∈ ["a.py", "b.py"], ¬Path.BeginsTwice p := by decide
    intro c hc
    exact hpaths c.path (mem_map_of_mem (f := path) hc)

theorem filter_twinFiles (n : ℕ) :
    (twinFiles n).filter (isIn (twinProject n).isRegular "python") = twinFiles n := by
  have hregular : (twinProject n).isRegular = (twinProject 0).isRegular := rfl
  have ha : (twinProject 0).isRegular "a.py" = true := by decide
  have hb : (twinProject 0).isRegular "b.py" = true := by decide
  have hlower : lower "Python" = "python" := by decide +kernel
  rw [hregular]
  simp [twinFiles, isIn, ha, hb, hlower]

/-- Each count alone can be read, but the total has too many digits to be reported. -/
theorem ownSourceFiles_twinProject :
    (twinProject (10 ^ Json.digitLimit - 1)).Reports "." (twinFiles (10 ^ Json.digitLimit - 1)) ∧
    ((ownSourceFiles "." "pypi").run (twinProject (10 ^ Json.digitLimit - 1))).1 =
      .error (.badValue "") := by
  have hten : 10 ≤ 10 ^ Json.digitLimit := Nat.le_self_pow (by decide) 10
  have hreports := reports_twinProject (n := 10 ^ Json.digitLimit - 1) (by omega)
  refine ⟨hreports, ?_⟩
  have hpypi : Registry.languagesOf "pypi" = .ok ["python"] := rfl
  rw [ownSourceFiles_run_of_summary hpypi (summary_run hreports) hreports.paths, if_neg]
  intro hall
  have hlt := hall "python" mem_cons_self
  have htotal (n : ℕ) : total (twinFiles n) = n + n := rfl
  rw [filter_twinFiles, htotal] at hlt
  omega

end Project
end RegexCorpus
