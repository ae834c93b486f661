import RegexCorpus.Extract.TypeScript
import RegexCorpus.Proofs.Extract.Static

/-!
# Reports on TypeScript files

However the two commands end, one line is printed, and a report on the TypeScript file is read from
it. It has the patterns of the JavaScript file when there is a report on that one, and none otherwise.
-/

namespace RegexCorpus.Extract.TypeScript
open List Outcome Value Json

variable {h : Host} {name : String} {report : FileReport}

/-! ### Lines of reports -/

/-- The object on the line of a report. -/
def membersOf (name : String) (language parsed found : Value) : Members := [
  ("fileName", .str name), ("language", language), ("couldParse", parsed), ("regexes", found),
  ("type", .str "SimpleFileWithRegexes")]

/-- A report whose parts can be written has a line, and is read back from it. -/
theorem exists_line_make {language parsed found : Value}
    (hlanguage : language.FitsRoom (nestingLimit - 1))
    (hparsed : parsed.FitsRoom (nestingLimit - 1))
    (hfound : found.FitsRoom (nestingLimit - 1)) (name : String) :
    ∃ line language' parsed' found',
      (FileReport.make (.str name) language parsed found).toLine = .ok line ∧
        '\n' ∉ line.toList ∧ (FileReport.read (.str line)).run {} =
          (.ok (), FileReport.make (.str name) language' parsed' found') ∧
        parsed.Reordered parsed' ∧ found.Reordered found' := by
  have hfits : ∀ m ∈ membersOf name language parsed found,
      m.2.FitsRoom (nestingLimit - 1) := by
    simp only [membersOf, forall_mem_cons]
    exact ⟨.str name, hlanguage, hparsed, hfound, .str _, by simp⟩
  have hdata : Value.IsJson (.object (membersOf name language parsed found)) :=
    .object (show ["fileName", "language", "couldParse", "regexes", "type"].Nodup by decide)
      fun m hm => (hfits m hm).isJson
  obtain ⟨line, hline⟩ := (exists_toLine_iff hdata _).mpr fun m hm => (hfits m hm).within
  obtain ⟨ns, hread, hback⟩ := exists_reading hdata hline
  simp only [membersOf, forall_mem_cons] at hback
  obtain ⟨⟨file, hfile, hname⟩, ⟨language', hlanguage', -⟩, ⟨parsed', hparsed', hp⟩,
    ⟨found', hfound', hf⟩, -⟩ := hback
  obtain rfl := eq_of_reordered_atom hname
  refine ⟨line, language', parsed', found', hline, fun hn =>
    absurd (isPlain_toLine hline _ hn) (by decide), ?_, hp, hf⟩
  rw [ofLine_str] at hread
  exact Static.read_eq_ok.mpr ⟨_, _, _, _, _, hread, get_object_eq_ok.mpr hfile,
    get_object_eq_ok.mpr hlanguage', get_object_eq_ok.mpr hparsed', get_object_eq_ok.mpr hfound',
    rfl⟩

/-! ### The report -/

/-- Both commands succeed, and this report is read from the output of the second one. -/
def Scripted (h : Host) (report : FileReport) : Prop :=
  ∃ script output, h.answersFor 2 = [.done 0 script, .done 0 output] ∧
    (FileReport.read (.str output)).run {} = (.ok (), report)

theorem Scripted.unique {report' : FileReport} (hr : Scripted h report) (hr' : Scripted h report') :
    report = report' := by
  obtain ⟨script, output, hanswers, hread⟩ := hr
  obtain ⟨script', output', hanswers', hread'⟩ := hr'
  cases hanswers.symm.trans hanswers'
  cases hread.symm.trans hread'
  rfl

/-- The parts of a report on a JavaScript file can be written. -/
theorem Scripted.exists_make (hr : Scripted h report) :
    ∃ file language parsed found, report = FileReport.make file language parsed found ∧
      language.FitsRoom (nestingLimit - 1) ∧
      parsed.FitsRoom (nestingLimit - 1) ∧
      found.FitsRoom (nestingLimit - 1) := by
  obtain ⟨script, output, -, hread⟩ := hr
  obtain ⟨obj, file, language, parsed, found, hobj, -, hlanguage, hparsed, hfound, rfl⟩ :=
    Static.read_eq_ok.mp hread
  obtain ⟨ms, rfl, hfits⟩ := ofText_sound hobj
  exact ⟨file, language, parsed, found, rfl, fitsRoom_get hfits hlanguage,
    fitsRoom_get hfits hparsed, fitsRoom_get hfits hfound⟩

theorem answersFor_two (h : Host) (command : Command) :
    h.answersFor 2 = [h.nextAnswer, (h.afterRun command).nextAnswer] := by
  rw [Host.answersFor_succ (show (h.afterRun command).answers = h.answers.tail from rfl) rfl,
    Host.answersFor_succ (show ((h.afterRun command).afterRun command).answers = _ from rfl) rfl]
  rfl

theorem executeChecked_run (h : Host) (line : String) :
    ∃ o, (Act.executeChecked line).run h = (o, h.afterRun (.shell line)) ∧
      ∀ output, o = .ok output ↔ h.nextAnswer = .done 0 output := by
  by_cases hanswer : ∃ output, h.nextAnswer = .done 0 output
  · obtain ⟨output, houtput⟩ := hanswer
    exact ⟨_, Static.executeChecked_run_of_success houtput line, by simp [houtput]⟩
  · rw [not_exists] at hanswer
    obtain ⟨f, hrun, -⟩ := Static.executeChecked_run_of_failure hanswer line
    exact ⟨_, hrun, by simp [hanswer]⟩

theorem reportOnScript_run (h : Host) (file : String) :
    ∃ o command, (reportOnScript file).run h = (o, h.afterRun command) ∧
      ∀ report, o = .ok report ↔ ∃ output, h.nextAnswer = .done 0 output ∧
        (FileReport.read (.str output)).run {} = (.ok (), report) := by
  obtain ⟨o, hrun, ho⟩ :=
    executeChecked_run h ("'" ++ scriptExtractor h.home ++ "' '" ++ file ++ "'")
  rw [reportOnScript, run_get_state_bind, run_bind, hrun]
  cases o with
  | error f => exact ⟨_, _, rfl, by simp [← ho]⟩
  | ok output =>
    have houtput := (ho output).mp rfl
    rcases hread : (FileReport.read (.str output)).run {} with ⟨f | _, report⟩
    · refine ⟨.error f, _, by simp only [hread]; rfl, fun r => ⟨fun hr => (by cases hr), ?_⟩⟩
      rintro ⟨output', houtput', hr⟩
      cases houtput.symm.trans houtput'
      cases hread.symm.trans hr
    · refine ⟨.ok report, _, by simp only [hread]; rfl, fun r => ⟨fun hr => ?_, ?_⟩⟩
      · cases hr
        exact ⟨output, houtput, hread⟩
      · rintro ⟨output', houtput', hr⟩
        cases houtput.symm.trans houtput'
        cases hread.symm.trans hr
        rfl

theorem reportOn_run (h : Host) (name : String) :
    ∃ o h', (reportOn name).run h = (o, h') ∧ h'.printed = h.printed ∧
      ∀ report, o = .ok report ↔
        ∃ r, Scripted h r ∧ { r with fileName := some (.str name) } = report := by
  rw [reportOn, run_get_state_bind]
  generalize "'" ++ transpiler h.home ++ "' '" ++ name ++ "' > '" ++ h.temporary ++ "'" = line
  obtain ⟨o, hrun, ho⟩ := executeChecked_run h line
  rw [run_bind, hrun]
  cases o with
  | error f =>
    refine ⟨.error f, _, rfl, rfl, fun report => ⟨fun hr => (by cases hr), ?_⟩⟩
    rintro ⟨r, ⟨script, output, hanswers, -⟩, -⟩
    rw [answersFor_two h (.shell line), cons.injEq] at hanswers
    cases (ho script).mpr hanswers.1
  | ok script =>
    obtain ⟨o, command, hrun', ho'⟩ := reportOnScript_run (h.afterRun (.shell line)) h.temporary
    have hscripted (r : FileReport) : Scripted h r ↔ o = .ok r := by
      rw [ho', Scripted, answersFor_two h (.shell line), (ho script).mp rfl]
      simp
    refine ⟨o.map fun r => { r with fileName := some (.str name) },
      (h.afterRun (.shell line)).afterRun command, ?_, rfl, fun report => ?_⟩
    · dsimp only
      rw [run_bind, hrun']
      cases o <;> rfl
    · simp only [hscripted]
      cases o <;> simp [Except.map]

/-! ### What is printed -/

/-- Once the transpiler has been found, one line is printed, and a report with the name of the
TypeScript file is read from it. What it says of the parsing and of the patterns stands in the report
on the JavaScript file if both commands succeed and there is one; otherwise the file could not be
parsed and has no patterns. -/
theorem printReport_run (hfound : ∃ e ∈ h.programs, e.1 = transpiler h.home) (name : String) :
    ∃ line r h', (printReport name).run h = (.ok (), h') ∧
      h'.printed = h.printed ++ (line ++ "\n") ∧ '\n' ∉ line.toList ∧
      (FileReport.read (.str line)).run {} = (.ok (), r) ∧ r.fileName = some (.str name) ∧
      (∀ report, Scripted h report → Option.Rel Reordered report.couldParse r.couldParse ∧
        Option.Rel Reordered report.regexes r.regexes) ∧
      ((∀ report, ¬Scripted h report) →
        r.couldParse = some (.int 0) ∧ r.regexes = some (.list [])) := by
  have hneed : (Act.needPrograms [transpiler h.home]).run h = (.ok (), h) := by
    obtain ⟨e, he, hname⟩ := hfound
    rw [Act.needPrograms, run_get_state_bind, run_lift_eq_ok, require_eq_ok]
    simp only [all_cons, all_nil, Bool.and_true, any_eq_true]
    exact ⟨⟨e, he, by simpa using hname⟩, trivial⟩
  obtain ⟨o, h', hrun, hprinted, ho⟩ := reportOn_run h name
  rw [printReport, run_get_state_bind, run_bind_of_ok hneed, run_bind, run_tryCatch, hrun]
  cases o with
  | error f =>
    have hnone : ∀ report, ¬Scripted h report := by
      intro report hreport
      cases (ho _).mpr ⟨report, hreport, rfl⟩
    have hparsed : Value.FitsRoom (Json.nestingLimit - 1) (.int 0) := .digit (by decide)
    have hempty : Value.FitsRoom (Json.nestingLimit - 1) (.list []) :=
      Value.fitsRoom_list fun x hx => absurd hx not_mem_nil
    obtain ⟨line, language, parsed, found, hline, hbreak, hread, hp, hf⟩ :=
      exists_line_make (.str "typescript") hparsed hempty name
    obtain rfl := eq_of_reordered_atom hp
    obtain rfl : found = .list [] := by
      obtain ⟨xs, rfl, hxs⟩ := exists_list_of_reordered hf
      rw [forall₂_nil_left_iff.mp hxs]
    exact ⟨line, _, _, run_lift_bind hline _ _, congrArg (· ++ (line ++ "\n")) hprinted, hbreak,
      hread, rfl, fun report hr => absurd hr (hnone report), fun _ => ⟨rfl, rfl⟩⟩
  | ok report =>
    obtain ⟨r, hr, rfl⟩ := (ho report).mp rfl
    obtain ⟨file, language, parsed, found, rfl, hlanguage, hparsed, hfound⟩ := hr.exists_make
    obtain ⟨line, language', parsed', found', hline, hbreak, hread, hp, hf⟩ :=
      exists_line_make hlanguage hparsed hfound name
    refine ⟨line, _, _, run_lift_bind hline _ _, congrArg (· ++ (line ++ "\n")) hprinted, hbreak,
      hread, rfl, fun report hr' => ?_, fun hnone => absurd hr (hnone _)⟩
    rw [hr'.unique hr]
    exact ⟨.some hp, .some hf⟩

/-- A host on which the extractor for JavaScript prints a report that breaks off. -/
def brokenOff : Host :=
  { home := "/r", programs := [(transpiler "/r", "")], lastAnswer := .timeout
    answers := [.done 0 "", .done 0 "\x7b\"fileName\": \"t.js\", \"couldParse"] }

theorem printReport_run_brokenOff : (∃ e ∈ brokenOff.programs, e.1 = transpiler brokenOff.home) ∧
    ∃ line r h', (printReport "a.ts").run brokenOff = (.ok (), h') ∧
      h'.printed = "" ++ (line ++ "\n") ∧ (FileReport.read (.str line)).run {} = (.ok (), r) ∧
      r.fileName = some (.str "a.ts") ∧ r.couldParse = some (.int 0) ∧
      r.regexes = some (.list []) := by
  have hfound : ∃ e ∈ brokenOff.programs, e.1 = transpiler brokenOff.home :=
    ⟨_, mem_cons_self, rfl⟩
  obtain ⟨line, r, h', hrun, hprinted, -, hread, hname, -, hnone⟩ := printReport_run hfound "a.ts"
  have hbroken : ∀ report, ¬Scripted brokenOff report := by
    rintro report ⟨script, output, hanswers, hread'⟩
    obtain ⟨obj, -, -, -, -, hobj, -⟩ := Static.read_eq_ok.mp hread'
    cases hanswers
    have hok : (Json.ofText "\x7b\"fileName\": \"t.js\", \"couldParse").isOk = false := by
      decide +kernel
    rw [hobj] at hok
    cases hok
  exact ⟨hfound, line, r, h', hrun, hprinted, hread, hname, hnone hbroken⟩

end RegexCorpus.Extract.TypeScript
