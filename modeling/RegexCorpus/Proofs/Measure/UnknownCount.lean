import RegexCorpus.Proofs.Measure.Vector

/-!
# Counts that cost a batch its results

The analyser may leave the count of a feature unknown. Most such counts do no harm: they are passed
over. But a feature that takes more than linear time and whose count is not known is a fault, and
with it the whole batch goes unmeasured.
-/

namespace RegexCorpus.Measure
open List Outcome Json Text

variable {es fs : Entries}
variable {output : String} {patterns : List String} {features : List Entries} {ms : List Metrics}

/-! ### Batches that can be measured -/

/-- Nothing but the features stands in the way of a measurement: the patterns and their languages
can be read, and the detectors give a prediction wherever one is asked for. -/
structure Ready (analyses : Analyses) (h : Host) (rs : List Regex) : Prop where
  pattern : ∀ r ∈ rs, ∃ p, r.pattern = some (.str p)
  languages : ∀ r ∈ rs, (∃ ls, r.staticLanguages = .ok ls) ∧ ∃ ls, r.dynamicLanguages = .ok ls
  worstCase : analyses.worstCase = true →
    ∀ k < rs.length, ∃ w, worstCaseIn (h.tools.replies[k]?.getD {}) = .ok w

variable {h h' : Host} {limits : Automaton.Limits} {analyses : Analyses} {rs : List Regex}

/-- An analyser that succeeds is judged by its lines alone. -/
theorem analyse_run (hanswer : h.nextAnswer = .done 0 output) (patterns : List String) :
    ∃ h', h'.tools = h.tools ∧
      (analyse patterns).run h = (reportsOf patterns (lines output), h') := by
  obtain ⟨command, hcommand⟩ : ∃ command, runAnalyser.run h =
      (Act.orElse (Act.execute command) (!·.isStop) fun _ => pure { code := 1 }).run h := ⟨_, rfl⟩
  have hrun : runAnalyser.run h = (.ok { code := 0, output }, h.afterRun command) := by
    rw [hcommand, Act.orElse, run_tryCatch, execute_run, hanswer]
  refine ⟨h.afterRun command, rfl, ?_⟩
  rw [analyse, run_bind_of_ok hrun]
  rfl

theorem ofAsk_run {σ α : Type} {s s' : σ} {ask : Ask σ α} {a : α} {t : Tools}
    (hask : ask.run s h.tools = ((Except.ok a, s'), t)) :
    (Act.ofAsk s ask).run h = (.ok (a, s'), { h with tools := t }) := by
  have hstep : (Act.ofAsk s ask).run h =
      (((ask.run s h.tools).1.1).map (·, (ask.run s h.tools).1.2),
        { h with tools := (ask.run s h.tools).2 }) := rfl
  rw [hstep, hask]
  rfl

open SuperLinear in
theorem predictWorstCase_run {w : Complexity} (hw : worstCaseIn (nextReply h.tools) = .ok w)
    (pattern : String) :
    ∃ h', h'.tools.replies = h.tools.replies.tail ∧
      (predictWorstCase pattern).run h = (.ok w, h') := by
  simp only [worstCaseIn, bind_eq_ok, require_eq_ok, beq_iff_eq] at hw
  obtain ⟨-, hcode, os, hos, hworst⟩ := hw
  obtain ⟨t, hreplies, hask⟩ : ∃ t : Tools, t.replies = h.tools.replies.tail ∧
      (Analysis.queryDetectors (.strs ["weideman-RegexStaticAnalysis"]) (.strs ["leftanchor"])).run
        { regex := .record (Regex.bare (.str pattern)) } h.tools =
      ((Except.ok (), { regex := .record (Regex.bare (.str pattern))
                        opinions := .items (os.map .record) }), t) :=
    ⟨_, rfl, (queryDetectors_run rfl h.tools).trans (takeUp_run hcode hos _ _)⟩
  refine ⟨{ h with tools := t }, hreplies, ?_⟩
  rw [predictWorstCase, run_bind_of_ok (ofAsk_run hask)]
  exact run_lift_eq_ok.mpr ⟨hworst, rfl⟩

theorem predictWorstCases_run
    (hw : ∀ k < patterns.length, ∃ w, worstCaseIn (h.tools.replies[k]?.getD {}) = .ok w) :
    ∃ worst h', (patterns.mapM predictWorstCase).run h = (.ok worst, h') := by
  induction patterns generalizing h with
  | nil => exact ⟨[], h, rfl⟩
  | cons pattern patterns ih =>
    obtain ⟨w, hfirst⟩ := hw 0 (by simp)
    rw [← head?_eq_getElem?] at hfirst
    obtain ⟨h₁, hreplies, hrun⟩ := predictWorstCase_run hfirst pattern
    obtain ⟨worst, h₂, hrest⟩ := ih fun k hk => by
      rw [hreplies, getElem?_tail]
      exact hw (k + 1) (by simpa using hk)
    refine ⟨w :: worst, h₂, ?_⟩
    rw [mapM_cons, run_bind_of_ok hrun, run_bind_of_ok hrest]
    rfl

/-- A report from which metrics can be taken. -/
def Usable (report : Value) : Prop :=
  ∃ entries valid fs automaton, report = .dict entries ∧
    partsOf report = .ok (valid, fs, automaton) ∧ (∃ n, distinctFeatures fs = .ok n) ∧
    ∃ b, usesSuperLinear fs = .ok b

/-- Well-formed lines with known counts give reports that can all be used. -/
theorem reportsOf_usable {lines : List String} (hlines : List.Forall₂ Reports lines features)
    (hknown : ∀ es ∈ features, KnowsSuperLinear es) (hlength : lines.length = patterns.length) :
    ∃ reports, reportsOf patterns lines = .ok reports ∧ reports.length = patterns.length ∧
      ∀ v ∈ reports, Usable v := by
  induction hlines generalizing patterns with
  | nil =>
    obtain rfl := length_eq_zero_iff.mp hlength.symm
    exact ⟨[], rfl, rfl, by simp⟩
  | @cons line es lines features hline _ ih =>
    obtain ⟨pattern, patterns, rfl⟩ := exists_cons_of_length_eq_add_one hlength.symm
    rw [forall_mem_cons] at hknown
    obtain ⟨reports, hreports, hcount, heach⟩ := ih hknown.2 (by simpa using hlength)
    obtain ⟨report, valid, fs, automaton, hreport, hparts⟩ := hline.exists_parts pattern
    obtain ⟨_, -, hsaid⟩ := says_of_report hreport hparts
    have hcounted := hline.countedAs hsaid
    refine ⟨.dict report :: reports, ?_, by simp [hcount], forall_mem_cons.mpr ⟨?_, heach⟩⟩
    · rw [reportsOf, hreport, hreports]
      rfl
    · exact ⟨report, valid, fs, automaton, rfl, hparts, ⟨_, hcounted.distinctFeatures_eq⟩,
        _, hcounted.usesSuperLinear_eq hknown.1⟩

theorem exists_metrics {r : Regex} (hautomaton : analyses.automaton = true) {p : String}
    (hpattern : r.pattern = some (.str p)) {static dynamic : List String}
    (hstatic : r.staticLanguages = .ok static) (hdynamic : r.dynamicLanguages = .ok dynamic)
    {report : Value} (hreport : Usable report) (csharp : String) (measures : Automaton.Measures)
    (worst : SuperLinear.Complexity) :
    ∃ m, metricsOf analyses r csharp report measures worst = .ok m := by
  obtain ⟨_, valid, fs, automaton, -, hparts, ⟨n, hn⟩, b, hb⟩ := hreport
  rw [metricsOf, hautomaton, if_pos rfl, hparts, ok_bind]
  dsimp only
  rw [hn, ok_bind, hb, ok_bind, field_eq_ok.mpr hpattern, ok_bind, hstatic, ok_bind, hdynamic]
  exact ⟨_, rfl⟩

theorem exists_metricsOfAll (hautomaton : analyses.automaton = true)
    (hready : ∀ r ∈ rs, (∃ p, r.pattern = some (.str p)) ∧ (∃ ls, r.staticLanguages = .ok ls) ∧
      ∃ ls, r.dynamicLanguages = .ok ls)
    {reports : List Value} (hreports : ∀ v ∈ reports, Usable v) (cs : List String)
    (measures : List Automaton.Measures) (worst : List SuperLinear.Complexity) :
    ∃ ms, metricsOfAll analyses rs cs reports measures worst = .ok ms := by
  fun_induction metricsOfAll analyses rs cs reports measures worst with
  | case1 r rs c cs v vs g gs w ws ih =>
    rw [forall_mem_cons] at hready hreports
    obtain ⟨⟨p, hp⟩, ⟨static, hstatic⟩, dynamic, hdynamic⟩ := hready.1
    obtain ⟨m, hm⟩ := exists_metrics hautomaton hp hstatic hdynamic hreports.1 c g w
    obtain ⟨ms, hms⟩ := ih hready.2 hreports.2
    rw [hm, hms]
    exact ⟨m :: ms, rfl⟩
  | case2 => exact ⟨[], rfl⟩

theorem exists_csharp (hpattern : ∀ r ∈ rs, ∃ p, r.pattern = some (.str p)) :
    ∃ csharp, rs.mapM toCSharp = .ok csharp := by
  refine exists_mapM_eq_ok fun r hr => ?_
  obtain ⟨p, hp⟩ := hpattern r hr
  refine ⟨Pattern.toCSharp "i" p, ?_⟩
  rw [toCSharp, field_eq_ok.mpr hp]
  rfl

theorem exists_measures (limits : Automaton.Limits) (analyses : Analyses) (rs : List Regex)
    {reports : List Value} (hreports : ∀ v ∈ reports, Usable v) :
    ∃ measures, (if analyses.automaton && analyses.simplePaths then
        reports.mapM (Automaton.Measures.ofReport limits)
      else .ok (rs.map fun _ => .unknown)) = .ok measures := by
  split_ifs
  · refine exists_mapM_eq_ok fun v hv => ?_
    obtain ⟨entries, _, _, _, rfl, -⟩ := hreports v hv
    exact ⟨_, ofReport_dict limits entries⟩
  · exact ⟨_, rfl⟩

theorem exists_worst (rs : List Regex)
    (hw : analyses.worstCase = true →
      ∀ k < patterns.length, ∃ w, worstCaseIn (h.tools.replies[k]?.getD {}) = .ok w) :
    ∃ worst h', (if analyses.worstCase then patterns.mapM predictWorstCase
      else pure (rs.map fun _ => .unknown) : Act _).run h = (.ok worst, h') := by
  split_ifs with hworst
  · exact predictWorstCases_run (hw hworst)
  · exact ⟨_, h, rfl⟩

theorem measureAll_of_ready (hautomaton : analyses.automaton = true)
    (hanswer : h.nextAnswer = .done 0 output)
    (hlines : List.Forall₂ Reports (lines output) features)
    (hlength : features.length = rs.length) (hready : Ready analyses h rs)
    (hknown : ∀ es ∈ features, KnowsSuperLinear es) :
    ∃ ms h', (measureAll limits analyses rs).run h = (.ok ms, h') := by
  obtain ⟨csharp, hcsharp⟩ := exists_csharp hready.pattern
  have hcs : rs.length = csharp.length := (mapM_eq_ok.mp hcsharp).length_eq
  obtain ⟨reports, hreports, hcount, heach⟩ := reportsOf_usable hlines hknown
    (hlines.length_eq.trans (hlength.trans hcs))
  obtain ⟨h₁, htools, hanalyse⟩ := analyse_run hanswer csharp
  obtain ⟨measures, hmeasures⟩ := exists_measures limits analyses rs heach
  have hpredicted := hready.worstCase
  rw [← htools, hcs] at hpredicted
  obtain ⟨worst, h₂, hworst⟩ := exists_worst rs hpredicted
  obtain ⟨ms, hms⟩ := exists_metricsOfAll hautomaton
    (fun r hr => ⟨hready.pattern r hr, hready.languages r hr⟩) heach csharp measures worst
  refine ⟨ms, h₂, ?_⟩
  simp only [measureAll_eq, run_bind_eq_ok, run_lift_eq_ok]
  refine ⟨csharp, h, ⟨hcsharp, rfl⟩, reports, h₁, ?_, measures, h₁, ⟨hmeasures, rfl⟩, worst, h₂,
    hworst, (), h₂, ⟨?_, rfl⟩, hms, rfl⟩
  · rw [hautomaton, if_pos rfl, hanalyse, hreports]
  · simp [require_eq_ok, hcount, hcs]

/-! ### Counts that cost a batch its results -/

/-- The metrics count the features: those other than the mark that are used, and whether one of them
takes more than linear time. -/
def Counts (es : Entries) (m : Metrics) : Prop :=
  m.distinctFeatures = usedCount (Entries.erase (.str "valid") es) ∧
    (m.usesSuperLinear = true ↔ ∃ name ∈ superLinearFeatures, 0 < es.count (.str name))

theorem CountedAs.counts {m : Metrics} (h : CountedAs es m.features)
    (hcounts : distinctFeatures m.features = .ok m.distinctFeatures ∧
      usesSuperLinear m.features = .ok m.usesSuperLinear) :
    KnowsSuperLinear es ∧ Counts es m := by
  have hknown := h.knows_of_usesSuperLinear hcounts.2
  refine ⟨hknown, Except.ok.inj (hcounts.1.symm.trans h.distinctFeatures_eq), ?_⟩
  rw [Except.ok.inj (hcounts.2.symm.trans (h.usesSuperLinear_eq hknown))]
  simp

theorem Entry.counts_of_reports {k : ℕ} {r : Regex} {m : Metrics}
    (hentry : Entry limits analyses h rs.length k r m) (hautomaton : analyses.automaton = true)
    (hanswer : h.nextAnswer = .done 0 output) {line : String}
    (hline : (lines output)[k]? = some line) (hreports : Reports line es) :
    KnowsSuperLinear es ∧ Counts es m := by
  obtain ⟨output', line', graph, hanswer', -, hline', hsaid, -⟩ := hentry.analysed hautomaton
  cases hanswer.symm.trans hanswer'
  cases hline.symm.trans hline'
  exact (hreports.countedAs hsaid).counts hentry.counts

theorem ready_of_entries (hlength : ms.length = rs.length)
    (hentries : ∀ (k : ℕ) r m, rs[k]? = some r → ms[k]? = some m → Entry limits analyses h rs.length k r m) :
    Ready analyses h rs := by
  have hentry (k : ℕ) (hk : k < rs.length) : ∃ m, Entry limits analyses h rs.length k rs[k] m :=
    ⟨ms[k], hentries k _ _ (getElem?_eq_getElem hk) (getElem?_eq_getElem (hlength.symm ▸ hk))⟩
  refine ⟨fun r hr => ?_, fun r hr => ?_, fun hworst k hk => ?_⟩
  · obtain ⟨k, hk, rfl⟩ := mem_iff_getElem.mp hr
    obtain ⟨m, hm⟩ := hentry k hk
    obtain ⟨p, hp, -⟩ := hm.pattern
    exact ⟨p, hp⟩
  · obtain ⟨k, hk, rfl⟩ := mem_iff_getElem.mp hr
    obtain ⟨m, hm⟩ := hentry k hk
    exact ⟨⟨_, hm.languages.1⟩, _, hm.languages.2⟩
  · obtain ⟨m, hm⟩ := hentry k hk
    have hpredicted := hm.worstCase
    rw [if_pos hworst] at hpredicted
    exact ⟨_, hpredicted⟩

theorem counts_of_entries
    (hautomaton : analyses.automaton = true) (hanswer : h.nextAnswer = .done 0 output)
    (hlines : List.Forall₂ Reports (lines output) features)
    (hfeatures : features.length = rs.length) (hlength : ms.length = rs.length)
    (hentries : ∀ (k : ℕ) r m, rs[k]? = some r → ms[k]? = some m →
      Entry limits analyses h rs.length k r m) :
    List.Forall₂ (fun es m => KnowsSuperLinear es ∧ Counts es m) features ms := by
  rw [forall₂_iff_get]
  refine ⟨hfeatures.trans hlength.symm, fun k hk hk' => ?_⟩
  have hr : k < rs.length := hfeatures ▸ hk
  have hline : k < (lines output).length := hlines.length_eq ▸ hk
  have hentry := hentries k _ _ (getElem?_eq_getElem hr) (getElem?_eq_getElem hk')
  exact hentry.counts_of_reports hautomaton hanswer (getElem?_eq_getElem hline)
    (hlines.get hline hk)

theorem measureBatch_of_ok (hall : (measureAll limits analyses rs).run h = (.ok ms, h')) :
    (measureBatch limits analyses rs).run h = (.ok (.metrics ms), h') := by
  unfold measureBatch
  rw [run_tryCatch, run_bind, hall]
  rfl

theorem measureBatch_of_error {f : Fault}
    (hall : (measureAll limits analyses rs).run h = (.error f, h')) :
    (measureBatch limits analyses rs).run h = (.ok (.unmeasured rs), h') := by
  unfold measureBatch
  rw [run_tryCatch, run_bind, hall]
  rfl

theorem exists_measured (hautomaton : analyses.automaton = true)
    (hanswer : h.nextAnswer = .done 0 output)
    (hlines : List.Forall₂ Reports (lines output) features)
    (hlength : features.length = rs.length) (hready : Ready analyses h rs)
    (hknown : ∀ es ∈ features, KnowsSuperLinear es) :
    ∃ ms h', (measureBatch limits analyses rs).run h = (.ok (.metrics ms), h') ∧
      List.Forall₂ Counts features ms := by
  obtain ⟨ms, h', hall⟩ := measureAll_of_ready hautomaton hanswer hlines hlength hready hknown
  obtain ⟨hms, hentries⟩ := measureAll_eq_ok hall
  have hcounts := counts_of_entries hautomaton hanswer hlines hlength hms hentries
  exact ⟨ms, h', measureBatch_of_ok hall, hcounts.imp fun _ _ h => h.2⟩

theorem exists_unmeasured (hautomaton : analyses.automaton = true)
    (hanswer : h.nextAnswer = .done 0 output)
    (hlines : List.Forall₂ Reports (lines output) features)
    (hlength : features.length = rs.length)
    (hnot : ¬(Ready analyses h rs ∧ ∀ es ∈ features, KnowsSuperLinear es)) :
    ∃ h', (measureBatch limits analyses rs).run h = (.ok (.unmeasured rs), h') := by
  rcases hall : (measureAll limits analyses rs).run h with ⟨f | ms, h'⟩
  · exact ⟨h', measureBatch_of_error hall⟩
  · obtain ⟨hms, hentries⟩ := measureAll_eq_ok hall
    have hcounts := counts_of_entries hautomaton hanswer hlines hlength hms hentries
    refine absurd ⟨ready_of_entries hms hentries, fun es hes => ?_⟩ hnot
    obtain ⟨m, -, hm⟩ := exists_of_mem_right hcounts.flip hes
    exact hm.1

/-- When the analyser gives a well-formed line for every pattern, a batch that is ready is measured
exactly if the counts of all features that take more than linear time are known; the metrics then
count the features on the line at their place. Otherwise the whole batch comes back. -/
theorem measureBatch_unknown_counts (limits : Automaton.Limits) (analyses : Analyses)
    (rs : List Regex) (h : Host) {output : String} {features : List Entries}
    (hautomaton : analyses.automaton = true) (hanswer : h.nextAnswer = .done 0 output)
    (hlines : List.Forall₂ Reports (Text.lines output) features)
    (hlength : features.length = rs.length) :
    (Ready analyses h rs ∧ (∀ es ∈ features, KnowsSuperLinear es) →
      ∃ ms h', (measureBatch limits analyses rs).run h = (Except.ok (.metrics ms), h') ∧
        List.Forall₂ Counts features ms) ∧
    (¬(Ready analyses h rs ∧ ∀ es ∈ features, KnowsSuperLinear es) →
      ∃ h', (measureBatch limits analyses rs).run h = (Except.ok (.unmeasured rs), h')) :=
  ⟨fun hbatch => exists_measured hautomaton hanswer hlines hlength hbatch.1 hbatch.2,
    exists_unmeasured hautomaton hanswer hlines hlength⟩

/-! ### A batch of two patterns -/

/-- Features with a lookahead, a group whose count is not known, and back references. -/
def sampleVector (backReferences : Value) : Entries :=
  [(.str "valid", .bool true), (.str "LKA", .int 2), (.str "CG", .null),
    (.str "BKR", backReferences)]

def sampleReport (backReferences : Value) : Members :=
  [("regexMetrics", .object [("validCSharpRegex", .bool true),
    ("featureVector", .object [("valid", .bool true), ("LKA", .int 2), ("CG", .null),
      ("BKR", backReferences)]),
    ("automataMeasures", .object [("nfa_orig_completeInfo", .bool true)])])]

def invalidReport : Members :=
  [("regexMetrics", .object [("validCSharpRegex", .bool false)])]

/-- What the analyser prints on two patterns, the second of which is not valid. -/
def sampleOutput (backReferences : Value) : String :=
  Text.unlines
    [Json.render (.object (sampleReport backReferences)), Json.render (.object invalidReport)]

/-- Two patterns, the second of which is not valid. -/
def samplePatterns : List Regex := [Regex.bare (.str "(?=(a))b"), Regex.bare (.str "(")]

/-- A host on which the analyser reports on the two patterns. -/
def sampleHost (backReferences : Value) : Host where
  answers := [.done 0 (sampleOutput backReferences)]

theorem lines_sampleOutput (v : Value) : lines (sampleOutput v) =
    [render (.object (sampleReport v)), render (.object invalidReport)] := by
  have hline (v : Value) : Text.IsOneLine (render v) := by
    apply isOneLine_of_isPlain
    rw [render, String.toList_ofList]
    exact isPlain_writeValue v
  exact lines_unlines (by simp [hline])

theorem parse_line {ms : Members} (hjson : Value.IsJson (.object ms))
    (hlimit : Value.Within nestingLimit (.object ms)) :
    parse (trim (render (.object ms))) = .ok (.object ms) := by
  have htrim := trim_render ms "" "" (by simp) (by simp)
  rw [String.empty_append, String.append_empty] at htrim
  rw [htrim, parse_render hjson hlimit]

theorem isVector_sample {v : Value} (hv : IsCount v) : IsVector (sampleVector v) true where
  keys := by simp [Entries.Distinct, sampleVector, Atom.identity]
  marked := rfl
  counts := by
    simp only [sampleVector, forall_mem_cons]
    exact ⟨fun h => absurd rfl h, fun _ => .known 2, fun _ => .null, fun _ => hv, by simp⟩

/-- Both lines are well-formed, whether the back references are known to be none or not known. -/
theorem reports_sample {v : Value} (hv : v = .null ∨ v = .int 0) :
    List.Forall₂ Reports (lines (sampleOutput v)) [sampleVector v, []] := by
  have hdigit {n : ℤ} (hn : n.natAbs < 10) : (Atom.int n).Short := Value.short_digit hn
  have hcount : IsCount v := by
    obtain rfl | rfl := hv
    · exact .null
    · exact .known 0
  rw [lines_sampleOutput]
  refine .cons (.valid (parse_line ?_ ?_) rfl rfl rfl (isVector_sample hcount) rfl rfl)
    (.cons (.invalid (parse_line ?_ ?_) rfl rfl) .nil)
  · obtain rfl | rfl := hv <;> simp [sampleReport]
  · obtain rfl | rfl := hv <;> simp [sampleReport, nestingLimit, hdigit]
  · simp [invalidReport]
  · simp [invalidReport, nestingLimit]

theorem ready_sample (v : Value) : Ready { automaton := true } (sampleHost v) samplePatterns where
  pattern := by simp [samplePatterns, Regex.bare, Regex.make]
  languages := by
    simp only [samplePatterns, forall_mem_cons]
    exact ⟨⟨⟨[], rfl⟩, [], rfl⟩, ⟨⟨[], rfl⟩, [], rfl⟩, by simp⟩
  worstCase := by simp

/-- With no back references the batch is measured, although one count is not known. -/
theorem measureBatch_unknown_counts_group :
    ∃ m₁ m₂ h', (measureBatch {} { automaton := true } samplePatterns).run (sampleHost (.int 0)) =
        (Except.ok (.metrics [m₁, m₂]), h') ∧
      (m₁.distinctFeatures = 1 ∧ m₁.usesSuperLinear = true) ∧ m₂.distinctFeatures = 0 := by
  have hknown : ∀ es ∈ [sampleVector (.int 0), []], KnowsSuperLinear es := by
    simp [KnowsSuperLinear, superLinearFeatures, sampleVector, Entries.find?, Atom.samePart_str]
  obtain ⟨ms, h', hrun, hcounts⟩ := (measureBatch_unknown_counts {} { automaton := true }
    samplePatterns (sampleHost (.int 0)) rfl rfl (reports_sample (.inr rfl)) rfl).1
      ⟨ready_sample _, hknown⟩
  obtain _ | @⟨_, m₁, _, _, hfirst, _ | @⟨_, m₂, _, _, hsecond, _ | _⟩⟩ := hcounts
  refine ⟨m₁, m₂, h', hrun, ⟨hfirst.1, hfirst.2.mpr ⟨"LKA", by decide, ?_⟩⟩, hsecond.1⟩
  decide

/-- With back references whose count is not known, the whole batch comes back, though every line is
well-formed. -/
theorem unknown_backReferences_unmeasured :
    (sampleHost .null).nextAnswer = .done 0 (sampleOutput .null) ∧
      List.Forall₂ Reports (Text.lines (sampleOutput .null)) [sampleVector .null, []] ∧
      Ready { automaton := true } (sampleHost .null) samplePatterns ∧
      ∃ h', (measureBatch {} { automaton := true } samplePatterns).run (sampleHost .null) =
        (Except.ok (.unmeasured samplePatterns), h') := by
  have hlines := reports_sample (.inl rfl)
  have hnull : ¬KnowsSuperLinear (sampleVector .null) := fun h => h "BKR" (by decide) rfl
  refine ⟨rfl, hlines, ready_sample _, ?_⟩
  exact exists_unmeasured rfl rfl hlines rfl fun hbatch => hnull (hbatch.2 _ (by simp))

end RegexCorpus.Measure
