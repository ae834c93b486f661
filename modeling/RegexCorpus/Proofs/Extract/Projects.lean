import RegexCorpus.Extract.Projects
import RegexCorpus.Proofs.Host.Frame
import RegexCorpus.Proofs.Project.Line
import RegexCorpus.Proofs.Schedule.Pool

/-!
# Searching many projects

A project is searched in each of the requested modes. However that goes, the project leaves with the
names of the files that the methods should have written, and with nothing else changed. So what is
written for a file of projects is decided by its lines and the requested methods, and the answers of
the extractors have no part in it; the pool decides on the order alone.
-/

namespace RegexCorpus.Extract
open List Text Json

variable {p : Project} {archive out : String} {modes : List Mode} {h : Host} {lines : List String}

open Act (FileFree)
open Schedule (completed)

/-! ### Searching a project -/

def archiveOf (p : Project) : Option String :=
  match p.tarballPath with
  | some (.str archive) => some archive
  | _ => none

/-- The project with the files for an archive that the requested methods should write. -/
def named (modes : List Mode) (archive : String) (p : Project) : Project :=
  { p with
    regexPath := if ∃ mode ∈ modes, mode.method = .static then
        some (.str (Path.stem archive ++ "-DR-static-regexes.json"))
      else p.regexPath
    dynRegexPath := if ∃ mode ∈ modes, mode.method = .dynamic then
        some (.str (Path.stem archive ++ "-DR-dynamic-regexes.json"))
      else p.dynRegexPath }

theorem named_nil (archive : String) (p : Project) : named [] archive p = p := by
  simp [named]

theorem named_cons (mode : Mode) (modes : List Mode) (archive : String) (p : Project) :
    named (mode :: modes) archive p =
      named modes archive (mode.method.record (mode.method.fileFor archive) p) := by
  obtain ⟨method, timeout⟩ := mode
  cases method with
  | static | dynamic =>
    simp only [named, Method.record, Method.fileFor, Method.ending, exists_mem_cons_iff]
    simp

theorem archiveOf_record (m : Method) (file : String) (p : Project) :
    archiveOf (m.record file p) = archiveOf p := by
  cases m <;> rfl

theorem needText_of_archiveOf (h : archiveOf p = some archive) :
    needText p.tarballPath = .ok archive := by
  unfold archiveOf at h
  split at h
  · rename_i s hs
    rw [hs, needText, Option.some.inj h]
  · cases h

theorem needText_of_none (h : archiveOf p = none) : needText p.tarballPath = .error .wrongKind := by
  unfold archiveOf at h
  split at h
  · cases h
  · rename_i hs
    unfold needText
    split
    · rename_i s hs'
      exact absurd hs' (hs s)
    · rfl

theorem search_cons (mode : Mode) (modes : List Mode) (p : Project) :
    search (mode :: modes) p = searchIn p mode >>= search modes := foldlM_cons

/-- Whatever comes of the extraction, the project leaves with the name of its file. -/
theorem searchIn_run (harchive : archiveOf p = some archive) (mode : Mode) (h : Host) :
    ∃ h', (searchIn p mode).run h =
      (.ok (mode.method.record (mode.method.fileFor archive) p), h') := by
  rw [searchIn, run_lift_bind (needText_of_archiveOf harchive)]
  -- the handler takes every fault, so both ends of the extraction lead to the same project
  rcases hrun : (extractTo mode (mode.method.fileFor archive) p).run h with ⟨e | u, h'⟩
  · refine ⟨h', ?_⟩
    rw [run_bind, run_tryCatch, hrun]
    rfl
  · refine ⟨h', ?_⟩
    rw [run_bind, run_tryCatch, hrun]
    rfl

theorem search_run (harchive : modes = [] ∨ archiveOf p = some archive) (h : Host) :
    ∃ h', (search modes p).run h = (.ok (named modes archive p), h') := by
  induction modes generalizing p h with
  | nil => exact ⟨h, by rw [named_nil]; rfl⟩
  | cons mode modes ih =>
    have hsome : archiveOf p = some archive := harchive.resolve_left (by simp)
    obtain ⟨h₁, hfirst⟩ := searchIn_run hsome mode h
    obtain ⟨h', hrest⟩ := ih (.inr ((archiveOf_record _ _ p).trans hsome)) h₁
    refine ⟨h', ?_⟩
    rw [search_cons, run_bind_of_ok hfirst, hrest, named_cons]

theorem search_run_of_none (hmodes : modes ≠ []) (harchive : archiveOf p = none) (h : Host) :
    (search modes p).run h = (.error .wrongKind, h) := by
  cases modes with
  | nil => exact absurd rfl hmodes
  | cons mode modes =>
    rw [search_cons, searchIn, needText_of_none harchive]
    rfl

/-! ### Searching without files -/

def extractBy (words : Outcome (List String)) (mode : Mode) : Act Unit := do
  let words ← words
  let _ ← (mode.timeout.isPositive : Outcome Bool)
  let reply ← Act.execute (.program words)
  if reply.code != 0 then throw (.commandFailed "")

theorem fileFree_extractBy (words : Outcome (List String)) (mode : Mode) :
    FileFree (extractBy words mode) := by
  refine (FileFree.lift _).bind fun words => (FileFree.lift _).bind fun _ =>
    (FileFree.execute _).bind fun reply => ?_
  split_ifs
  · exact .lift (.error _)
  · exact .pure ()

theorem fileFree_extractTo (mode : Mode) (file : String) (p : Project) :
    FileFree (extractTo mode file p) := by
  have hrun (h : Host) : (extractTo mode file p).run h =
      (extractBy (commandWords h mode.method file p) mode).run h := rfl
  have hfree (h : Host) := fileFree_extractBy (commandWords h mode.method file p) mode
  constructor
  · -- the command names programs and records, and no files of the host
    intro h files
    have hwords : commandWords { h with files } mode.method file p =
        commandWords h mode.method file p := rfl
    rw [hrun, hrun, hwords]
    exact (hfree h).frame h files
  · intro h
    rw [hrun]
    exact (hfree h).cwd h
  · intro P h hP
    rw [hrun]
    exact (hfree h).expects P h hP

theorem fileFree_search (modes : List Mode) (p : Project) : FileFree (search modes p) := by
  induction modes generalizing p with
  | nil => exact .pure p
  | cons mode modes ih =>
    rw [search_cons]
    refine FileFree.bind ?_ ih
    exact (FileFree.lift _).bind fun archive =>
      ((fileFree_extractTo mode _ p).tryCatch fun _ => .pure ()).bind fun _ => .pure _

/-! ### The line of a project -/

def isSearchable (modes : List Mode) (p : Project) : Bool := modes.isEmpty || (archiveOf p).isSome

def lineOf (modes : List Mode) (p : Project) : Option String :=
  if isSearchable modes p then (named modes ((archiveOf p).getD "") p).toLine.toOption else none

theorem archiveOf_eq_some : archiveOf p = some archive ↔ p.tarballPath = some (.str archive) := by
  unfold archiveOf
  split
  · rename_i s hs
    simp [hs]
  · rename_i hs
    simpa using hs archive

theorem isSearchable_cases (modes : List Mode) (p : Project) :
    isSearchable modes p = true ∧ (modes = [] ∨ archiveOf p = some ((archiveOf p).getD "")) ∨
      isSearchable modes p = false ∧ modes ≠ [] ∧ archiveOf p = none := by
  cases modes with
  | nil => exact .inl ⟨rfl, .inl rfl⟩
  | cons mode modes =>
    cases harchive : archiveOf p with
    | some archive => exact .inl ⟨by simp [isSearchable, harchive], .inr rfl⟩
    | none => exact .inr ⟨by simp [isSearchable, harchive], by simp, rfl⟩

theorem complete_record (hp : p.Complete) (m : Method) (file : String) :
    (m.record file p).Complete := by
  have hfile : ∃ v, some (Value.str file) = some v ∧ v.FitsRoom (nestingLimit - 1) :=
    ⟨_, rfl, .str file⟩
  have hfits := hp.fits
  cases m with
  | static | dynamic =>
    refine ⟨hp.initialized_eq, hp.type_eq, ?_⟩
    simp only [DataFields.entries, Project.fields, map_cons, Method.record,
      forall_mem_cons] at hfits ⊢
    tauto

theorem complete_named (hp : p.Complete) (modes : List Mode) (archive : String) :
    (named modes archive p).Complete := by
  induction modes generalizing p with
  | nil => rwa [named_nil]
  | cons mode modes ih =>
    rw [named_cons]
    exact ih (complete_record hp _ _)

theorem exists_lineOf (hp : p.Complete) (hsearch : isSearchable modes p = true) :
    ∃ line q, lineOf modes p = some line ∧
      (named modes ((archiveOf p).getD "") p).toLine = .ok line ∧ Project.ofLine line = .ok q ∧
      (named modes ((archiveOf p).getD "") p).Same q := by
  obtain ⟨line, q, hline, hback, hsame⟩ :=
    (complete_named hp modes ((archiveOf p).getD "")).exists_line
  refine ⟨line, q, ?_, hline, hback, hsame⟩
  rw [lineOf, if_pos hsearch, hline]
  rfl

/-! ### What a pool does with projects -/

theorem run_emit (modes : List Mode) (out : String) (order : List ℕ) (p : Project) (h : Host) :
    ((Schedule.Plan.unlimited order).run (searchTask modes p) >>= emit out).run h =
      (emit out ((searchTask modes p).run h).1).run ((searchTask modes p).run h).2 := rfl

theorem task_run (modes : List Mode) (order : List ℕ) (hp : p.Complete) {done : List String}
    (hholds : h.Holds out (.text (unlines done))) :
    ∃ h', ((Schedule.Plan.unlimited order).run (searchTask modes p) >>= emit out).run h =
        (.ok (), h') ∧
      h'.Holds out (.text (unlines (done ++ (lineOf modes p).toList))) := by
  rw [run_emit]
  obtain ⟨hsearch, harchive⟩ | ⟨hsearch, hmodes, hnone⟩ := isSearchable_cases modes p
  · obtain ⟨line, -, hlineOf, hline, -, -⟩ := exists_lineOf hp hsearch
    obtain ⟨h₁, hfound⟩ := search_run harchive h
    have htask : (searchTask modes p).run h =
        (.ok (named modes ((archiveOf p).getD "") p), h₁) := by
      rw [searchTask, run_bind_of_ok hfound, run_lift_bind hline]
      rfl
    -- searching leaves the output alone, and its line comes after what was there
    have hholds₁ := (fileFree_search modes p).holds hfound hholds
    obtain ⟨h', happend, hholds'⟩ := Act.appendFile_run hholds₁ (line ++ "\n")
    refine ⟨h', ?_, ?_⟩
    · rw [htask, emit, run_lift_bind hline, happend]
    · rw [Content.append, ← unlines_concat] at hholds'
      rwa [hlineOf, Option.toList_some]
  · have htask : (searchTask modes p).run h = (.error .wrongKind, h) := by
      rw [searchTask, run_bind, search_run_of_none hmodes hnone]
    refine ⟨h, ?_, ?_⟩
    · rw [htask]
      rfl
    · rwa [lineOf, if_neg (by simp [hsearch]), Option.toList_none, append_nil]

theorem mapM_task_run (modes : List Mode) (order : List ℕ) {projects : List Project}
    (hprojects : ∀ p ∈ projects, p.Complete) {done : List String}
    (hholds : h.Holds out (.text (unlines done))) :
    ∃ us h', (projects.mapM fun p =>
        (Schedule.Plan.unlimited order).run (searchTask modes p) >>= emit out).run h =
          (.ok us, h') ∧
      h'.Holds out (.text (unlines (done ++ projects.filterMap (lineOf modes)))) := by
  induction projects generalizing h done with
  | nil => exact ⟨[], h, rfl, by rwa [filterMap_nil, append_nil]⟩
  | cons p projects ih =>
    rw [forall_mem_cons] at hprojects
    obtain ⟨h₁, hfirst, hholds₁⟩ := task_run modes order hprojects.1 hholds
    obtain ⟨us, h', hrest, hholds'⟩ := ih hprojects.2 hholds₁
    refine ⟨() :: us, h', ?_, ?_⟩
    · rw [mapM_cons, run_bind_of_ok hfirst, run_bind_of_ok hrest]
      rfl
    · have hlines : (p :: projects).filterMap (lineOf modes) =
          (lineOf modes p).toList ++ projects.filterMap (lineOf modes) := by
        cases hline : lineOf modes p <;> simp [hline]
      rwa [hlines, ← append_assoc]

theorem searchAll_run {path : String} (hread : (Act.readLines path).run h = (.ok lines, h))
    (hout : h.CanWrite out) (modes : List Mode) (order : List ℕ) :
    ∃ h', (searchAll path modes out order).run h = (.ok (), h') ∧
      h'.Holds out (.text (unlines
        ((completed order (Project.ofLines lines)).filterMap (lineOf modes)))) := by
  have hload : (Project.load path).run h = (.ok (Project.ofLines lines), h) := by
    rw [Project.load, run_bind_of_ok hread]
    rfl
  obtain ⟨h₁, hwrite, hempty⟩ := Act.writeFile_run hout ""
  have hcomplete : ∀ p ∈ completed order (Project.ofLines lines), p.Complete := fun p hp =>
    Project.complete_of_mem_ofLines ((Schedule.completed_perm order _).mem_iff.mp hp)
  have hnothing : h₁.Holds out (.text (unlines [])) := hempty
  obtain ⟨us, h', hall, hholds⟩ := mapM_task_run modes order hcomplete hnothing
  have hpool : ((Schedule.Plan.unlimited order).forEach
      ((Project.ofLines lines).map (searchTask modes)) (emit out)).run h₁ = (.ok us, h') := by
    rw [Schedule.Plan.forEach_eq (.inl rfl) (u := .unlimited) rfl, Schedule.completed_map, mapM_map]
    exact hall
  refine ⟨h', ?_, by rwa [nil_append] at hholds⟩
  rw [searchAll, run_bind_of_ok hload, searchProjects, run_bind_of_ok hwrite, run_bind_of_ok hpool]
  rfl

/-! ### What is written -/

def isSearchableLine (modes : List Mode) (line : String) : Bool :=
  (Project.ofLine? (Text.trim line)).any (isSearchable modes)

/-- What is written for a line: the project that stands on it, with the names of the files that were
asked for and otherwise as it was. -/
def Emits (modes : List Mode) (line written : String) : Prop :=
  ∃ p archive q, Project.ofLine (Text.trim line) = .ok p ∧
    (modes = [] ∨ p.tarballPath = some (.str archive)) ∧
    (named modes archive p).toLine = .ok written ∧ Project.ofLine written = .ok q ∧
    (named modes archive p).Same q

theorem emits_of_lineOf {line : String} (hline : Project.ofLine (trim line) = .ok p)
    (hsearch : isSearchable modes p = true) :
    ∃ written, lineOf modes p = some written ∧ Emits modes line written := by
  obtain ⟨written, q, hlineOf, hwritten, hback, hsame⟩ :=
    exists_lineOf (Project.complete_of_ofLine hline) hsearch
  refine ⟨written, hlineOf, p, _, q, hline, ?_, hwritten, hback, hsame⟩
  obtain ⟨-, harchive⟩ | ⟨hfalse, -⟩ := isSearchable_cases modes p
  · exact harchive.imp id archiveOf_eq_some.mp
  · rw [hsearch] at hfalse
    cases hfalse

/-- Line by line, what is written comes from the lines with projects that can be searched. -/
theorem forall₂_emits (modes : List Mode) (lines : List String) :
    List.Forall₂ (Emits modes) (lines.filter (isSearchableLine modes))
      ((Project.ofLines lines).filterMap (lineOf modes)) := by
  rw [Project.ofLines_eq]
  induction lines with
  | nil => exact .nil
  | cons line lines ih =>
    cases hline : Project.ofLine? (trim line) with
    | none => simpa [isSearchableLine, hline] using ih
    | some p =>
      cases hsearch : isSearchable modes p with
      | true =>
        obtain ⟨written, hlineOf, hemits⟩ :=
          emits_of_lineOf (Project.ofLine?_eq_some.mp hline) hsearch
        simpa [isSearchableLine, hline, hsearch, hlineOf] using ⟨hemits, ih⟩
      | false => simpa [isSearchableLine, hline, hsearch, lineOf] using ih

/-- What is written for a file of projects: for each line with a project that can be searched, one
line with the names of the requested files and everything else as it was, in the order in which the
projects are completed. The answers of the extractors have no part in it, nor have other lines. -/
theorem searchAll_emits {path out : String} {lines : List String} {h : Host}
    (hread : (Act.readLines path).run h = (.ok lines, h)) (hout : h.CanWrite out)
    (modes : List Mode) (order : List ℕ) :
    ∃ h' emitted written, (searchAll path modes out order).run h = (.ok (), h') ∧
      h'.Holds out (.text (Text.unlines written)) ∧
      List.Forall₂ (Emits modes) (lines.filter (isSearchableLine modes)) emitted ∧
      written.Perm emitted ∧ ((∀ k ∈ order, k = 0) → written = emitted) := by
  obtain ⟨h', hrun, hholds⟩ := searchAll_run hread hout modes order
  refine ⟨h', _, _, hrun, hholds, forall₂_emits modes lines, ?_, ?_⟩
  · exact (Schedule.completed_perm order _).filterMap _
  · intro hzeros
    rw [Schedule.completed_of_zeros hzeros]

def sampleProject (archive : String) : Members :=
  [("type", .str Project.typeName), ("owner", .str "o"), ("name", .str "n"),
    ("registry", .str "npm"), ("modules", .list [.str "a"]), ("nStars", .int 1),
    ("tarballPath", .str archive), ("regexPath", noRegexPath), ("dynRegexPath", noRegexPath),
    ("projectHistoryFile", .str "")]

def sampleLine (archive : String) : String := Json.render (.object (sampleProject archive))

theorem isOneLine_sampleLine (archive : String) : Text.IsOneLine (sampleLine archive) := by
  apply isOneLine_of_isPlain
  rw [sampleLine, render, String.toList_ofList]
  exact isPlain_writeValue _

theorem ofLine_sampleLine (archive : String) :
    Project.ofLine (trim (sampleLine archive ++ "\n")) =
      .ok (Project.ofMembers (sampleProject archive)) := by
  have hjson : Value.IsJson (.object (sampleProject archive)) := by
    simp [sampleProject, noRegexPath]
  have hlimit : Value.Within nestingLimit (.object (sampleProject archive)) := by
    simp [sampleProject, noRegexPath, nestingLimit, Value.short_digit]
  have htext := ofText_render_object hjson hlimit
  have htrim := trim_render (sampleProject archive) "" "\n" (by simp) (by simp; decide)
  rw [String.empty_append] at htrim
  rw [sampleLine, htrim]
  refine Project.ofLine_of_members htext rfl ?_
  simp only [Project.fields, forall_mem_cons, not_mem_nil, false_imp_iff, implies_true, and_true]
  refine ⟨?_, ?_, ?_, ?_, ?_, ?_, ?_, ?_, ?_, ?_⟩ <;> exact Option.some_ne_none _

def hostWith (lines : List String) (answers : List Answer) : Host where
  files := .folder [("in.json", .file (.text (Text.unlines lines)))]
  answers

theorem readLines_hostWith (hlines : ∀ l ∈ lines, Text.IsOneLine l) (answers : List Answer) :
    (Act.readLines "in.json").run (hostWith lines answers) =
      (.ok (lines.map (· ++ "\n")), hostWith lines answers) := by
  have hholds : (hostWith lines answers).Holds "in.json" (.text (unlines lines)) :=
    ⟨["in.json"], rfl⟩
  exact hholds.readLines (Content.lines_unlines hlines)

theorem canWrite_hostWith (lines : List String) (answers : List Answer) :
    (hostWith lines answers).CanWrite "out.json" := ⟨["out.json"], none, rfl, by simp⟩

def twoProjects : List String := [sampleLine "a.tgz", "nothing", sampleLine "b.tgz"]

theorem isOneLine_twoProjects : ∀ l ∈ twoProjects, Text.IsOneLine l := by
  simp only [twoProjects, forall_mem_cons, not_mem_nil, false_imp_iff, implies_true, and_true]
  exact ⟨isOneLine_sampleLine _, ⟨by decide, by decide⟩, isOneLine_sampleLine _⟩

theorem isSearchableLine_sampleLine (modes : List Mode) (archive : String) :
    isSearchableLine modes (sampleLine archive ++ "\n") = true := by
  rw [isSearchableLine, Project.ofLine?_eq_some.mpr (ofLine_sampleLine archive)]
  cases modes <;> rfl

/-- Both ways to search a project, the second one for a minute at most. -/
def bothModes : List Mode := [⟨.dynamic, .int 0⟩, ⟨.static, .int 60⟩]

/-- One extractor is missing, one runs out of time and one fails, and still there is a line for each
of the two projects. -/
theorem searchAll_emits_twoProjects :
    ∃ h' a b, (searchAll "in.json" bothModes "out.json" []).run
        (hostWith twoProjects [.missing, .timeout, .done 3 ""]) = (.ok (), h') ∧
      h'.Holds "out.json" (.text (Text.unlines [a, b])) ∧
      Emits bothModes (sampleLine "a.tgz" ++ "\n") a ∧
      Emits bothModes (sampleLine "b.tgz" ++ "\n") b := by
  obtain ⟨h', emitted, written, hrun, hholds, hemits, -, hwritten⟩ :=
    searchAll_emits (readLines_hostWith isOneLine_twoProjects [.missing, .timeout, .done 3 ""])
      (canWrite_hostWith _ _) bothModes []
  have hother : ¬isSearchableLine bothModes ("nothing" ++ "\n") = true := by decide
  rw [twoProjects, map_cons, map_cons, map_cons, map_nil,
    filter_cons_of_pos (isSearchableLine_sampleLine _ _), filter_cons_of_neg hother,
    filter_cons_of_pos (isSearchableLine_sampleLine _ _), filter_nil] at hemits
  obtain ⟨a, _, ha, hsecond, rfl⟩ := forall₂_cons_left_iff.mp hemits
  obtain ⟨b, _, hb, hend, rfl⟩ := forall₂_cons_left_iff.mp hsecond
  obtain rfl := forall₂_nil_left_iff.mp hend
  obtain rfl := hwritten (by simp)
  exact ⟨h', a, b, hrun, hholds, ha, hb⟩

/-! ### Projects that run out of time -/

/-- When the project is searched on this host, an extractor runs out of time. -/
def TimedOut (modes : List Mode) (p : Project) (h : Host) : Prop :=
  .timeout ∈ h.answersFor (((search modes p).run h).2.runs.length - h.runs.length)

theorem TimedOut.exists_archive (htime : TimedOut modes p h) :
    ∃ archive, archiveOf p = some archive := by
  cases harchive : archiveOf p with
  | some archive => exact ⟨archive, rfl⟩
  | none =>
    have hsame : ((search modes p).run h).2 = h := by
      cases modes with
      | nil => rfl
      | cons mode modes => rw [search_run_of_none (cons_ne_nil mode modes) harchive]
    rw [TimedOut, hsame, Nat.sub_self] at htime
    cases htime

theorem mem_completed_lines {line result : String} (hmem : line ∈ lines) (hline : Project.ofLine (trim line) = .ok p)
    (hresult : lineOf modes p = some result) (order : List ℕ) :
    result ∈ (completed order (Project.ofLines lines)).filterMap (lineOf modes) := by
  have hp : p ∈ Project.ofLines lines := by
    rw [Project.ofLines_eq]
    exact mem_filterMap.mpr ⟨line, hmem, Project.ofLine?_eq_some.mpr hline⟩
  exact mem_filterMap.mpr ⟨p, (Schedule.completed_perm order _).mem_iff.mpr hp, hresult⟩

/-- On whatever host a project is searched: if an extractor runs out of time there, the project is
written like any other, with the names of all the files that were asked for. -/
theorem searchAll_emits_timedOut {path out : String} {lines : List String} {h : Host}
    (hread : (Act.readLines path).run h = (.ok lines, h)) (hout : h.CanWrite out)
    (modes : List Mode) (order : List ℕ) :
    ∃ h' written, (searchAll path modes out order).run h = (.ok (), h') ∧
      h'.Holds out (.text (Text.unlines written)) ∧
      ∀ line ∈ lines, ∀ p, Project.ofLine (Text.trim line) = .ok p → ∀ g, TimedOut modes p g →
        ∃ archive result, p.tarballPath = some (.str archive) ∧
          (named modes archive p).toLine = .ok result ∧ result ∈ written := by
  obtain ⟨h', hrun, hholds⟩ := searchAll_run hread hout modes order
  refine ⟨h', _, hrun, hholds, ?_⟩
  intro line hmem p hline g htime
  obtain ⟨archive, harchive⟩ := htime.exists_archive
  have hsearch : isSearchable modes p = true := by simp [isSearchable, harchive]
  obtain ⟨result, -, hlineOf, hresult, -, -⟩ :=
    exists_lineOf (Project.complete_of_ofLine hline) hsearch
  rw [harchive, Option.getD_some] at hresult
  exact ⟨archive, result, archiveOf_eq_some.mp harchive, hresult,
    mem_completed_lines hmem hline hlineOf order⟩

/-- Reading the source, for a second at most. -/
def briefly : List Mode := [⟨.static, .int 1⟩]

theorem timedOut_sampleProject (archive : String) (lines : List String) :
    TimedOut briefly (Project.ofMembers (sampleProject archive)) (hostWith lines [.timeout]) := by
  have hruns : ((search briefly (Project.ofMembers (sampleProject archive))).run
      (hostWith lines [.timeout])).2.runs.length - (hostWith lines [.timeout]).runs.length = 1 :=
    rfl
  rw [TimedOut, hruns]
  exact mem_cons_self

/-- The extractor is done with the first project in time and not with the second one. -/
theorem searchAll_emits_timedOut_second :
    TimedOut briefly (Project.ofMembers (sampleProject "b.tgz"))
        (hostWith twoProjects [.timeout]) ∧
      ∃ h' written result, (searchAll "in.json" briefly "out.json" [1]).run
          (hostWith twoProjects [.done 0 "", .timeout]) = (.ok (), h') ∧
        h'.Holds "out.json" (.text (Text.unlines written)) ∧
        (named briefly "b.tgz" (Project.ofMembers (sampleProject "b.tgz"))).toLine = .ok result ∧
        result ∈ written := by
  have htime := timedOut_sampleProject "b.tgz" twoProjects
  obtain ⟨h', written, hrun, hholds, hlate⟩ :=
    searchAll_emits_timedOut (readLines_hostWith isOneLine_twoProjects [.done 0 "", .timeout])
      (canWrite_hostWith _ _) briefly [1]
  have hmem : sampleLine "b.tgz" ++ "\n" ∈ twoProjects.map (· ++ "\n") :=
    mem_map_of_mem (by simp [twoProjects])
  obtain ⟨archive, result, harchive, hresult, hwritten⟩ :=
    hlate _ hmem _ (ofLine_sampleLine "b.tgz") _ htime
  cases harchive
  exact ⟨htime, h', written, result, hrun, hholds, hresult, hwritten⟩

/-- The extractor of the only project runs out of time, and its file of patterns is named in the
line that is written. -/
theorem searchAll_emits_lateProject :
    TimedOut briefly (Project.ofMembers (sampleProject "proj.tgz"))
        (hostWith [sampleLine "proj.tgz"] [.timeout]) ∧
      ∃ h' result q, (searchAll "in.json" briefly "out.json" []).run
          (hostWith [sampleLine "proj.tgz"] [.timeout]) = (.ok (), h') ∧
        h'.Holds "out.json" (.text (Text.unlines [result])) ∧ Project.ofLine result = .ok q ∧
        q.regexPath = some (.str "proj-DR-static-regexes.json") := by
  refine ⟨timedOut_sampleProject _ _, ?_⟩
  have hone : ∀ l ∈ [sampleLine "proj.tgz"], Text.IsOneLine l := by
    simp [isOneLine_sampleLine]
  obtain ⟨h', hrun, hholds⟩ := searchAll_run (readLines_hostWith hone [.timeout])
    (canWrite_hostWith _ _) briefly []
  have hsearch : isSearchable briefly (Project.ofMembers (sampleProject "proj.tgz")) = true := rfl
  obtain ⟨result, q, hlineOf, -, hback, hsame⟩ :=
    exists_lineOf (Project.complete_of_ofLine (ofLine_sampleLine "proj.tgz")) hsearch
  refine ⟨h', result, q, hrun, ?_, hback, ?_⟩
  · have hproject := Project.ofLine?_eq_some.mpr (ofLine_sampleLine "proj.tgz")
    have hlines : (completed []
        (Project.ofLines ([sampleLine "proj.tgz"].map (· ++ "\n")))).filterMap (lineOf briefly) =
          [result] := by
      simp [Project.ofLines_eq, completed, hproject, hlineOf]
    rwa [hlines] at hholds
  · have hstem : Path.stem "proj.tgz" = "proj" := by decide
    have hfield : ("regexPath", some (.str "proj-DR-static-regexes.json")) ∈
        Project.fields.entries
          (named briefly "proj.tgz" (Project.ofMembers (sampleProject "proj.tgz"))) := by
      simp [DataFields.entries, Project.fields, named, briefly, hstem]
    have hpath : some (.str "proj-DR-static-regexes.json") = q.regexPath := by
      simpa [DataFields.entries, Project.fields] using hsame.mem_entries hfield
    exact hpath.symm

end RegexCorpus.Extract
