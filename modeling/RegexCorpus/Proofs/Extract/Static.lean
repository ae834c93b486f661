import RegexCorpus.Extract.Static
import RegexCorpus.Proofs.Host.Frame
import RegexCorpus.Proofs.Project.SourceFiles

/-!
# Patterns found by reading source

One source file after the other is given to the extractor of its language. What is written for a
file is decided by the answer for that file: a line for each pattern when the answer is a whole
report, and nothing otherwise.
-/

namespace RegexCorpus
open List Outcome Json Text

namespace Extract
namespace Static

variable {output registry name out text : String} {regexes : List (Value × Value)}
  {lines : List String} {h : Host}

/-! ### What an answer reports -/

/-- The output of an extractor is a whole report, with these patterns and flags. -/
def Reported (output : String) (regexes : List (Value × Value)) : Prop :=
  ∃ obj found items, Json.ofText output = .ok obj ∧
    (∀ key ∈ ["fileName", "language", "couldParse"], ∃ v, obj.get key = .ok v) ∧
    obj.get "regexes" = .ok found ∧ found.parts = .ok items ∧
    List.Forall₂ (fun item r => item.get "pattern" = .ok r.1 ∧ item.get "flags" = .ok r.2)
      items regexes

/-- The record of a use of a pattern in a source file. -/
def usageObject (registry name : String) (r : Value × Value) : Value :=
  .object [("pattern", r.1), ("flags", r.2), ("inputs", .null), ("regexes", .str registry),
    ("relPath", .str name), ("basename", .str (Path.basename name))]

/-- The lines for a source file: one for each pattern when the extractor succeeded with a report,
and none otherwise. -/
inductive FileLines (registry name : String) : Answer → List String → Prop
  | reported {output : String} {regexes : List (Value × Value)} {lines : List String}
      (hreport : Reported output regexes)
      (hlines : List.Forall₂ (fun r line => Json.toLine (usageObject registry name r) = .ok line)
        regexes lines) : FileLines registry name (.done 0 output) lines
  | nothing {answer : Answer}
      (hanswer : ∀ output regexes, answer = .done 0 output → ¬Reported output regexes) :
      FileLines registry name answer []

theorem Reported.unique {regexes' : List (Value × Value)} (h : Reported output regexes)
    (h' : Reported output regexes') : regexes = regexes' := by
  obtain ⟨obj, found, items, hobj, -, hfound, hitems, hregexes⟩ := h
  obtain ⟨obj', found', items', hobj', -, hfound', hitems', hregexes'⟩ := h'
  cases hobj.symm.trans hobj'
  cases hfound.symm.trans hfound'
  cases hitems.symm.trans hitems'
  refine right_unique_forall₂' ?_ hregexes hregexes'
  rintro item ⟨pattern, flags⟩ ⟨pattern', flags'⟩ ⟨hpattern, hflags⟩ ⟨hpattern', hflags'⟩
  cases hpattern.symm.trans hpattern'
  cases hflags.symm.trans hflags'
  rfl

theorem FileLines.unique {answer : Answer} {lines' : List String}
    (h : FileLines registry name answer lines) (h' : FileLines registry name answer lines') :
    lines = lines' := by
  cases h with
  | reported hreport hlines =>
    cases h' with
    | reported hreport' hlines' =>
      cases hreport.unique hreport'
      refine right_unique_forall₂' ?_ hlines hlines'
      intro r line line' hline hline'
      exact Except.ok.inj (hline.symm.trans hline')
    | nothing hanswer => exact absurd hreport (hanswer _ _ rfl)
  | nothing hanswer =>
    cases h' with
    | reported hreport' hlines' => exact absurd hreport' (hanswer _ _ rfl)
    | nothing => rfl

/-! ### Reading an answer -/

/-- The use of a pattern in a source file. -/
def usageOf (name : String) (r : Value × Value) : Usage :=
  .make r.1 r.2 .null .null (.str name) (.str (Path.basename name))

theorem read_eq_ok {report : FileReport} :
    (FileReport.read (.str output)).run {} = (.ok (), report) ↔
      ∃ obj file language parsed found, ofText output = .ok obj ∧
        obj.get "fileName" = .ok file ∧ obj.get "language" = .ok language ∧
        obj.get "couldParse" = .ok parsed ∧ obj.get "regexes" = .ok found ∧
        FileReport.make file language parsed found = report := by
  rw [FileReport.read, run_modify_bind, ofLine_str, run_bind_eq_ok]
  simp only [DataFields.readFrom, FileReport.fields, List.map_cons, List.map_nil,
    DataField.reading, fillIn_cons_eq_ok]
  constructor
  · rintro ⟨obj, t, hlift, file, hfile, language, hlanguage, parsed, hparsed, found, hfound, h⟩
    obtain ⟨hobj, rfl⟩ := run_lift_eq_ok.mp hlift
    cases h
    exact ⟨obj, file, language, parsed, found, hobj, hfile, hlanguage, hparsed, hfound, rfl⟩
  · rintro ⟨obj, file, language, parsed, found, hobj, hfile, hlanguage, hparsed, hfound, rfl⟩
    exact ⟨obj, _, run_lift_eq_ok.mpr ⟨hobj, rfl⟩, file, hfile, language, hlanguage, parsed, hparsed,
      found, hfound, rfl⟩

theorem useOf_eq_ok {item : Value} {u : Usage} :
    useOf name item = .ok u ↔ ∃ r : Value × Value,
      (item.get "pattern" = .ok r.1 ∧ item.get "flags" = .ok r.2) ∧ usageOf name r = u := by
  simp only [useOf, bind_eq_ok, pure_eq_ok]
  constructor
  · rintro ⟨pattern, hpattern, flags, hflags, rfl⟩
    exact ⟨(pattern, flags), ⟨hpattern, hflags⟩, rfl⟩
  · rintro ⟨⟨pattern, flags⟩, ⟨hpattern, hflags⟩, rfl⟩
    exact ⟨pattern, hpattern, flags, hflags, rfl⟩

theorem mapM_useOf_eq_ok {items : List Value} {uses : List Usage} :
    items.mapM (useOf name) = .ok uses ↔
      ∃ regexes, List.Forall₂ (fun item (r : Value × Value) =>
        item.get "pattern" = .ok r.1 ∧ item.get "flags" = .ok r.2) items regexes ∧
        regexes.map (usageOf name) = uses := by
  simp only [mapM_eq_ok, useOf_eq_ok]
  exact forall₂_exists_map_iff

theorem usesOf_eq_ok {uses : List Usage} :
    usesOf name output = .ok uses ↔
      ∃ regexes, Reported output regexes ∧ regexes.map (usageOf name) = uses := by
  constructor
  · intro h
    rw [usesOf] at h
    split at h
    · cases h
    · rename_i report hread
      obtain ⟨obj, file, language, parsed, found, hobj, hfile, hlanguage, hparsed, hfound, rfl⟩ :=
        read_eq_ok.mp hread
      rw [FileReport.make, field, ok_bind] at h
      obtain ⟨items, hitems, h⟩ := bind_eq_ok.mp h
      obtain ⟨regexes, hregexes, rfl⟩ := mapM_useOf_eq_ok.mp h
      refine ⟨regexes, ⟨obj, found, items, hobj, ?_, hfound, hitems, hregexes⟩, rfl⟩
      simp [hfile, hlanguage, hparsed]
  · rintro ⟨regexes, ⟨obj, found, items, hobj, hkeys, hfound, hitems, hregexes⟩, rfl⟩
    obtain ⟨file, hfile⟩ := hkeys "fileName" (by simp)
    obtain ⟨language, hlanguage⟩ := hkeys "language" (by simp)
    obtain ⟨parsed, hparsed⟩ := hkeys "couldParse" (by simp)
    have hread := read_eq_ok.mpr
      ⟨obj, file, language, parsed, found, hobj, hfile, hlanguage, hparsed, hfound, rfl⟩
    rw [usesOf, hread]
    refine bind_eq_ok.mpr ⟨found, rfl, bind_eq_ok.mpr ⟨items, hitems, ?_⟩⟩
    exact mapM_useOf_eq_ok.mpr ⟨regexes, hregexes, rfl⟩

/-! ### Lines of uses -/

theorem Reported.fitsRoom (h : Reported output regexes) :
    ∀ r ∈ regexes, r.1.FitsRoom (nestingLimit - 1) ∧
      r.2.FitsRoom (nestingLimit - 1) := by
  obtain ⟨obj, found, items, hobj, -, hfound, hitems, hregexes⟩ := h
  obtain ⟨ms, rfl, hfits⟩ := ofText_sound hobj
  -- a pattern is nested in three values of the report, and in one on its line
  have hroom : nestingLimit = nestingLimit - 3 + 1 + 1 + 1 := rfl
  rw [hroom] at hfits
  intro r hr
  obtain ⟨item, hitem, hpattern, hflags⟩ := exists_of_mem_right hregexes hr
  have hitemFits := fitsRoom_parts (fitsRoom_get hfits hfound) hitems item hitem
  exact ⟨(fitsRoom_get hitemFits hpattern).mono (by omega),
    (fitsRoom_get hitemFits hflags).mono (by omega)⟩

theorem exists_toLine (registry name : String) {r : Value × Value}
    (hpattern : r.1.FitsRoom (nestingLimit - 1))
    (hflags : r.2.FitsRoom (nestingLimit - 1)) :
    ∃ line, toLine (usageObject registry name r) = .ok line := by
  have hmembers : ∀ m ∈ [("pattern", r.1), ("flags", r.2), ("inputs", .null),
      ("regexes", .str registry), ("relPath", .str name),
      ("basename", .str (Path.basename name))],
      Value.FitsRoom (nestingLimit - 1) (m : String × Value).2 := by
    simp only [forall_mem_cons, not_mem_nil, false_imp_iff, implies_true, and_true]
    exact ⟨hpattern, hflags, .null, .str _, .str _, .str _⟩
  refine (exists_toLine_iff (.object (by simp) fun m hm => (hmembers m hm).isJson) _).mpr ?_
  exact fun m hm => (hmembers m hm).within

theorem linesFor_usageOf :
    linesFor (.str registry) (regexes.map (usageOf name)) = .ok lines ↔
      List.Forall₂ (fun r line => toLine (usageObject registry name r) = .ok line)
        regexes lines := by
  rw [linesFor, mapM_eq_ok, forall₂_map_left_iff]
  rfl

def usesFrom (name : String) : Answer → List Usage
  | .done 0 output => (usesOf name output).toOption.getD []
  | _ => []

theorem exists_linesFor (registry name : String) (answer : Answer) :
    ∃ lines, linesFor (.str registry) (usesFrom name answer) = .ok lines ∧
      FileLines registry name answer lines := by
  by_cases hreport : ∃ output regexes, answer = .done 0 output ∧ Reported output regexes
  · obtain ⟨output, regexes, rfl, hregexes⟩ := hreport
    have huses : usesOf name output = .ok (regexes.map (usageOf name)) :=
      usesOf_eq_ok.mpr ⟨regexes, hregexes, rfl⟩
    obtain ⟨lines, hlines⟩ := forall₂_of_forall_exists fun r hr =>
      exists_toLine registry name (hregexes.fitsRoom r hr).1 (hregexes.fitsRoom r hr).2
    refine ⟨lines, ?_, .reported hregexes hlines⟩
    rw [usesFrom, huses]
    exact linesFor_usageOf.mpr hlines
  · have hnothing : ∀ output regexes, answer = .done 0 output → ¬Reported output regexes :=
      fun output regexes ha hr => hreport ⟨output, regexes, ha, hr⟩
    refine ⟨[], ?_, .nothing hnothing⟩
    have huses : usesFrom name answer = [] := by
      unfold usesFrom
      split
      · rename_i output
        cases huses : usesOf name output with
        | error e => rfl
        | ok uses =>
          obtain ⟨regexes, hr, -⟩ := usesOf_eq_ok.mp huses
          exact absurd hr (hnothing output regexes rfl)
      · rfl
    rw [huses]
    rfl

/-! ### One source file -/

theorem executeChecked_run_of_success (hanswer : h.nextAnswer = .done 0 output) (line : String) :
    (Act.executeChecked line).run h = (.ok output, h.afterRun (.shell line)) := by
  have hrun := execute_run (.shell line) h
  rw [hanswer] at hrun
  rw [Act.executeChecked, run_bind_of_ok hrun]
  rfl

theorem executeChecked_run_of_failure (hanswer : ∀ output, h.nextAnswer ≠ .done 0 output)
    (line : String) :
    ∃ f, (Act.executeChecked line).run h = (.error f, h.afterRun (.shell line)) ∧
      (h.nextAnswer ≠ .interrupted → f ≠ .interrupted) := by
  have hrun := execute_run (.shell line) h
  cases hnext : h.nextAnswer with
  | done code output =>
    rw [hnext] at hrun
    have hcode : (code == 0) = false := by
      rw [beq_eq_false_iff_ne]
      rintro rfl
      exact hanswer output hnext
    refine ⟨.commandFailed ("Error, cmd <" ++ line ++ "> returned " ++ ofInt code ++ ": " ++
      output), ?_, by simp⟩
    rw [Act.executeChecked, run_bind_of_ok hrun, hcode]
    rfl
  | timeout | interrupted | missing =>
    rw [hnext] at hrun
    exact ⟨_, by rw [Act.executeChecked, run_bind, hrun], by simp⟩

theorem usesIn_run (hstop : h.nextAnswer ≠ .interrupted) (extractor name : String) :
    ∃ uses, (usesIn extractor name).run h =
        (.ok uses, h.afterRun (.shell (commandFor extractor name))) ∧
      uses.getD [] = usesFrom name h.nextAnswer := by
  rw [usesIn, Act.orElse, run_tryCatch]
  by_cases hanswer : ∃ output, h.nextAnswer = .done 0 output
  · obtain ⟨output, houtput⟩ := hanswer
    refine ⟨(usesOf name output).toOption, ?_, by rw [houtput, usesFrom]⟩
    rw [run_bind_of_ok (executeChecked_run_of_success houtput _)]
    rfl
  · rw [not_exists] at hanswer
    obtain ⟨f, hrun, hf⟩ := executeChecked_run_of_failure hanswer (commandFor extractor name)
    refine ⟨none, ?_, ?_⟩
    · rw [run_bind, hrun]
      cases f with
      | interrupted => exact absurd rfl (hf hstop)
      | _ => rfl
    · unfold usesFrom
      split
      · rename_i output houtput
        exact absurd houtput (hanswer output)
      · rfl

/-- Lines put at the end of a file stand there after what it held. -/
theorem appendLines_run (hout : h.Holds out (.text text)) (lines : List String) :
    ∃ h', (appendLines out lines).run h = (.ok (), h') ∧
      h'.Holds out (.text (text ++ unlines lines)) := by
  induction lines generalizing h text with
  | nil => exact ⟨h, rfl, by simpa [unlines] using hout⟩
  | cons line lines ih =>
    obtain ⟨h₁, hfirst, hout₁⟩ := Act.appendFile_run hout (line ++ "\n")
    obtain ⟨h', hrest, hout'⟩ := ih hout₁
    have hcons : appendLines out (line :: lines) =
        (Act.appendFile out (line ++ "\n") >>= fun _ => appendLines out lines) := rfl
    refine ⟨h', ?_, ?_⟩
    · rw [hcons, run_bind_of_ok hfirst]
      exact hrest
    · rwa [unlines_cons, ← String.append_assoc]

theorem onlyFiles_appendLines (out : String) (lines : List String) :
    Act.OnlyFiles (appendLines out lines) :=
  .forM (fun line => .appendFile out (line ++ "\n")) lines

/-- One answer has been used up, and nothing that later files depend on has changed. -/
structure Advanced (h h' : Host) : Prop where
  answers_eq : h'.answers = h.answers.tail
  lastAnswer_eq : h'.lastAnswer = h.lastAnswer
  home_eq : h'.home = h.home

/-- A source file takes the next answer, and its lines are put at the end of the file. -/
theorem extractFile_run {language extractor : String} {file : SourceFile}
    (hstop : h.nextAnswer ≠ .interrupted) (hextractor : extractorOf h.home language = .ok extractor)
    (hlines : linesFor (.str registry) (usesFrom file.name h.nextAnswer) = .ok lines)
    (hout : h.Holds out (.text text)) :
    ∃ h', (extractFile registry out language file).run h = (.ok (), h') ∧ Advanced h h' ∧
      h'.Holds out (.text (text ++ unlines lines)) := by
  obtain ⟨uses, hrun, huses⟩ := usesIn_run hstop extractor file.name
  have hafter : (h.afterRun (.shell (commandFor extractor file.name))).Holds out (.text text) :=
    hout
  obtain ⟨h', happend, hout'⟩ := appendLines_run hafter lines
  have honly :=
    onlyFiles_appendLines out lines (h.afterRun (.shell (commandFor extractor file.name)))
  rw [happend] at honly
  dsimp only at honly
  refine ⟨h', ?_, ?_, hout'⟩
  · rw [extractFile, run_get_state_bind, run_lift_bind hextractor, run_bind_of_ok hrun,
      run_lift_bind (huses ▸ hlines)]
    exact happend
  · rw [honly]
    exact ⟨rfl, rfl, rfl⟩

/-! ### All source files -/

/-- The files of a table with their languages, in order. -/
def filesOf (table : SourceTable) : List (String × SourceFile) :=
  table.flatMap fun e => e.2.map fun file => (e.1, file)

theorem extractTable_eq (registry out : String) (table : SourceTable) :
    extractTable registry out table = Act.writeFile out "" >>= fun _ =>
      (filesOf table).forM fun p => extractFile registry out p.1 p.2 := by
  rw [extractTable]
  refine congrArg _ (funext fun _ => ?_)
  induction table with
  | nil => rfl
  | cons e table ih =>
    have hcons : filesOf (e :: table) = e.2.map (fun file => (e.1, file)) ++ filesOf table := rfl
    simp only [forM_eq_forM] at ih ⊢
    rw [hcons, forM_append, forM_map, forM_cons, ih]

theorem forM_extractFile_run {lines : String → Answer → List String}
    (hlines : ∀ name answer, linesFor (.str registry) (usesFrom name answer) = .ok (lines name answer))
    {ps : List (String × SourceFile)}
    (hextractors : ∀ p ∈ ps, ∃ extractor, extractorOf h.home p.1 = .ok extractor)
    (hstop : ∀ answer ∈ h.answersFor ps.length, answer ≠ .interrupted)
    (hout : h.Holds out (.text text)) :
    ∃ h', (ps.forM fun p => extractFile registry out p.1 p.2).run h = (.ok (), h') ∧
      h'.Holds out (.text (text ++ unlines
        (zipWith lines (ps.map (·.2.name)) (h.answersFor ps.length)).flatten)) := by
  induction ps generalizing h text with
  | nil => exact ⟨h, rfl, by simpa [unlines] using hout⟩
  | cons p ps ih =>
    rw [forall_mem_cons] at hextractors
    obtain ⟨⟨extractor, hextractor⟩, hextractors⟩ := hextractors
    have hnext := hstop _ (h.nextAnswer_mem_answersFor ps.length)
    obtain ⟨h₁, hfirst, hadvanced, hout₁⟩ :=
      extractFile_run hnext hextractor (hlines p.2.name _) hout
    have hanswers := Host.answersFor_succ hadvanced.answers_eq hadvanced.lastAnswer_eq ps.length
    rw [length_cons, hanswers] at hstop ⊢
    rw [← hadvanced.home_eq] at hextractors
    obtain ⟨h', hrest, hout'⟩ := ih hextractors (forall_mem_cons.mp hstop).2 hout₁
    refine ⟨h', ?_, ?_⟩
    · rw [forM_eq_forM, forM_cons, run_bind_of_ok hfirst]
      exact hrest
    · rwa [map_cons, zipWith_cons_cons, flatten_cons, unlines_append, ← String.append_assoc]

theorem extractTable_run {lines : String → Answer → List String}
    (hlines : ∀ name answer, linesFor (.str registry) (usesFrom name answer) = .ok (lines name answer))
    {table : SourceTable} (hout : h.CanWrite out)
    (hextractors : ∀ p ∈ filesOf table, ∃ extractor, extractorOf h.home p.1 = .ok extractor)
    (hstop : ∀ answer ∈ h.answersFor (filesOf table).length, answer ≠ .interrupted) :
    ∃ h', (extractTable registry out table).run h = (.ok (), h') ∧
      h'.Holds out (.text (unlines (zipWith lines ((filesOf table).map (·.2.name))
        (h.answersFor (filesOf table).length)).flatten)) := by
  obtain ⟨h₁, hwrite, hempty⟩ := Act.writeFile_run hout ""
  have honly := Act.OnlyFiles.writeFile out "" h
  rw [hwrite] at honly
  dsimp only at honly
  have hhome : h₁.home = h.home := by rw [honly]
  have hanswers (n : ℕ) : h₁.answersFor n = h.answersFor n := by
    rw [honly]
    rfl
  rw [← hhome] at hextractors
  rw [← hanswers] at hstop ⊢
  obtain ⟨h', hfiles, hout'⟩ := forM_extractFile_run hlines hextractors hstop hempty
  refine ⟨h', ?_, by rwa [String.empty_append] at hout'⟩
  rw [extractTable_eq, run_bind_of_ok hwrite]
  exact hfiles

/-! ### A project -/

theorem exists_extractorOf (hregistry : registry ∈ ["npm", "pypi", "maven"])
    {languages : List String} (hlanguages : Registry.languagesOf registry = .ok languages)
    (home : String) : ∀ l ∈ languages, ∃ extractor, extractorOf home l = .ok extractor := by
  simp only [mem_cons, not_mem_nil, or_false] at hregistry
  rcases hregistry with rfl | rfl | rfl <;> cases hlanguages <;> simp [extractorOf, extractors]

theorem mem_languages_of_mem_filesOf {table : SourceTable} {p : String × SourceFile}
    (hp : p ∈ filesOf table) : p.1 ∈ table.map Prod.fst := by
  obtain ⟨e, he, hp⟩ := mem_flatMap.mp hp
  obtain ⟨file, -, rfl⟩ := mem_map.mp hp
  exact mem_map_of_mem he

/-- A project that can be searched is a folder, or an archive that is unpacked to a directory. -/
inductive Opened (source : String) (h : Host) : String → Host → Prop
  | folder (hsource : h.isFolder source = true) : Opened source h source h
  | archive {dir : String} {h' : Host} (hsource : h.isFolder source = false)
      (hunpack : (Act.unpack source).run h = (.ok dir, h')) : Opened source h dir h'

theorem removeFolder_run (path : String) (h : Host) :
    ∃ h', (Act.removeFolder path).run h = (.ok (), h') := by
  rw [Act.removeFolder, run_get_state_bind]
  split
  · split_ifs <;> exact ⟨_, rfl⟩
  · exact ⟨h, rfl⟩

/-- What is written for a project is, file after file, what the answer for the file alone leads to:
a line for each pattern of a whole report, and nothing otherwise. -/
theorem extract_run {registry : String} (hregistry : registry ∈ ["npm", "pypi", "maven"]) :
    ∃ lines : String → Answer → List String,
      (∀ name answer, FileLines registry name answer (lines name answer)) ∧
      ∀ {source out dir : String} {h h₁ : Host} {table : SourceTable},
        (checkExtractors registry).run h = (.ok (), h) → Opened source h dir h₁ →
        ((Project.ownSourceFiles dir registry).run h₁).1 = .ok table → h₁.CanWrite out →
        (∀ answer ∈ h₁.answersFor (filesOf table).length, answer ≠ .interrupted) →
        ∃ h', h'.Holds out (.text (Text.unlines (List.zipWith lines
            ((filesOf table).map (·.2.name)) (h₁.answersFor (filesOf table).length)).flatten)) ∧
          (extract source registry out).run h =
            (.ok (), if h.isFolder source then h' else ((Act.removeFolder dir).run h').2) := by
  choose lines hlines hspec using exists_linesFor registry
  refine ⟨lines, hspec, ?_⟩
  intro source out dir h h₁ table hcheck hopened htable hout hstop
  obtain ⟨h₂, hselect⟩ : ∃ h₂, (Project.ownSourceFiles dir registry).run h₁ = (.ok table, h₂) :=
    ⟨_, Prod.ext htable rfl⟩
  obtain ⟨rfl, hlanguages⟩ := Project.ownSourceFiles_eq_ok hselect
  have hextractors : ∀ p ∈ filesOf table, ∃ extractor, extractorOf h₂.home p.1 = .ok extractor :=
    fun p hp => exists_extractorOf hregistry hlanguages _ p.1 (mem_languages_of_mem_filesOf hp)
  obtain ⟨h', hrun, hout'⟩ := extractTable_run hlines hout hextractors hstop
  refine ⟨h', hout', ?_⟩
  rw [extract, run_bind_of_ok hcheck, extractProject, run_get_state_bind]
  cases hopened with
  | folder hsource =>
    rw [if_pos hsource, if_pos hsource, run_bind_of_ok hselect, hrun]
  | archive hsource hunpack =>
    obtain ⟨h'', hremove⟩ := removeFolder_run dir h'
    rw [if_neg (by simp [hsource]), if_neg (by simp [hsource]), run_bind_of_ok hunpack,
      run_bind_of_ok hselect, run_bind_of_ok hrun, hremove]

def reportOf (regexes : List Value) : Members :=
  [("fileName", .str "x"), ("language", .str "python"), ("couldParse", .bool true),
    ("regexes", .list regexes)]

def wholeReport : Members :=
  reportOf [.object [("pattern", .str "a+"), ("flags", .null)]]

/-- A pattern with its flags, and one without. -/
def halfReport : Members :=
  reportOf [.object [("pattern", .str "b"), ("flags", .str "i")], .object [("pattern", .str "c")]]

/-- Three source files: half a report on the first, a failure on the second with a report all the
same, and a whole report on the third. -/
def threeFiles : Host where
  files := .folder [
    ("corpus", .folder [("corpus-creation", .folder [("static-analysis", .folder [
      ("python", .folder [("extract-python-regexes-wrapper.pl", .file (.text ""))])])])]),
    ("a.py", .file (.text "")), ("b.py", .file (.text "")), ("c.py", .file (.text ""))]
  lineReport := .object [("a.py", .object [("code", .int 1), ("language", .str "Python")]),
    ("b.py", .object [("code", .int 1), ("language", .str "Python")]),
    ("c.py", .object [("code", .int 1), ("language", .str "Python")])]
  answers := [.done 0 (Json.render (.object halfReport)),
    .done 1 (Json.render (.object wholeReport)), .done 0 (Json.render (.object wholeReport))]

theorem reported_wholeReport :
    Reported (render (.object wholeReport)) [(.str "a+", .null)] := by
  have hjson : Value.IsJson (.object wholeReport) := by simp [wholeReport, reportOf]
  have hlimit : Value.Within nestingLimit (.object wholeReport) := by
    simp [wholeReport, reportOf, nestingLimit]
  have htext := ofText_render_object hjson hlimit
  refine ⟨_, _, _, htext, ?_, rfl, rfl, .cons ⟨rfl, rfl⟩ .nil⟩
  simp only [forall_mem_cons, not_mem_nil, false_imp_iff, implies_true, and_true]
  exact ⟨⟨_, rfl⟩, ⟨_, rfl⟩, ⟨_, rfl⟩⟩

theorem not_reported_halfReport (regexes : List (Value × Value)) :
    ¬Reported (render (.object halfReport)) regexes := by
  have hjson : Value.IsJson (.object halfReport) := by simp [halfReport, reportOf]
  have hlimit : Value.Within nestingLimit (.object halfReport) := by
    simp [halfReport, reportOf, nestingLimit]
  have htext := ofText_render_object hjson hlimit
  rintro ⟨obj, found, items, hobj, -, hfound, hitems, hregexes⟩
  cases htext.symm.trans hobj
  cases hfound
  cases hitems
  cases hregexes with
  | cons _ hrest =>
    cases hrest with
    | cons hitem _ => cases hitem.2

/-- Neither the half report nor the failure changes what is written for the third file. -/
theorem extract_threeFiles :
    ∃ h' line, Json.toLine (usageObject "pypi" "c.py" (.str "a+", .null)) = .ok line ∧
      (extract "." "pypi" "out.json").run threeFiles = (.ok (), h') ∧
      h'.Holds "out.json" (.text (Text.unlines [line])) := by
  have hpypi : "pypi" ∈ ["npm", "pypi", "maven"] := by simp
  obtain ⟨lines, hspec, hrun⟩ := extract_run hpypi
  obtain ⟨line, hline⟩ := exists_toLine "pypi" "c.py" (r := (.str "a+", .null)) (.str _) .null
  have hhalf : lines "a.py" (.done 0 (Json.render (.object halfReport))) = [] := by
    refine (hspec _ _).unique (.nothing fun output regexes he => ?_)
    obtain ⟨-, rfl⟩ := Answer.done.inj he
    exact not_reported_halfReport regexes
  have hfailed : lines "b.py" (.done 1 (Json.render (.object wholeReport))) = [] :=
    (hspec _ _).unique (.nothing fun output regexes he => by simp at he)
  have hwhole : lines "c.py" (.done 0 (Json.render (.object wholeReport))) = [line] :=
    (hspec _ _).unique (.reported reported_wholeReport (.cons hline .nil))
  have htable : ((Project.ownSourceFiles "." "pypi").run threeFiles).1 =
      .ok [("python", [⟨"a.py", .int 1⟩, ⟨"b.py", .int 1⟩, ⟨"c.py", .int 1⟩])] := rfl
  have hcheck : (checkExtractors "pypi").run threeFiles = (.ok (), threeFiles) := rfl
  have hout : threeFiles.CanWrite "out.json" := ⟨["out.json"], none, rfl, by simp⟩
  have hstop : ∀ answer ∈ threeFiles.answers, answer ≠ .interrupted := by
    simp [threeFiles]
  obtain ⟨h', hholds, hend⟩ := hrun hcheck (.folder rfl) htable hout hstop
  refine ⟨h', line, hline, hend, ?_⟩
  have hlines :
      (List.zipWith lines ["a.py", "b.py", "c.py"] threeFiles.answers).flatten = [line] := by
    simp [threeFiles, hhalf, hfailed, hwhole]
  rw [← hlines]
  exact hholds

end Static
end Extract
end RegexCorpus
