import RegexCorpus.Proofs.Measure.Report
import RegexCorpus.Proofs.SuperLinear.Detector

/-!
# A batch is measured as a whole

Measuring a batch never fails: it ends in metrics for every pattern, each at the place of its
pattern and taken from the line and the reply at that place, or the batch comes back as it was.
-/

namespace RegexCorpus.Measure
open Outcome List

variable {h h' : Host} {limits : Automaton.Limits} {analyses : Analyses}
variable {patterns : List String} {reports : List Value} {worst : List SuperLinear.Complexity}
  {rs : List Regex}

/-! ### The automaton analyser -/

theorem runAnalyser_eq_ok {reply : Reply} (hrun : runAnalyser.run h = (.ok reply, h')) :
    (reply.code = 0 → h.nextAnswer = .done 0 reply.output) ∧ h'.tools = h.tools := by
  obtain ⟨command, hcommand⟩ : ∃ command, runAnalyser.run h =
      (Act.orElse (Act.execute command) (!·.isStop) fun _ => pure { code := 1 }).run h := ⟨_, rfl⟩
  rw [hcommand, Act.orElse, run_tryCatch, execute_run] at hrun
  have hfailed : ({ code := 1 } : Reply).code ≠ 0 := by decide
  cases hn : h.nextAnswer with
  | done code output =>
    rw [hn] at hrun
    cases hrun
    exact ⟨fun hcode => by rw [← hcode], rfl⟩
  | timeout | missing =>
    rw [hn] at hrun
    cases hrun
    exact ⟨fun hcode => absurd hcode hfailed, rfl⟩
  | interrupted =>
    rw [hn] at hrun
    cases hrun

theorem analyse_eq_ok (hrun : (analyse patterns).run h = (.ok reports, h')) :
    h'.tools = h.tools ∧
      ((∃ output, h.nextAnswer = .done 0 output ∧
          reportsOf patterns (Text.lines output) = .ok reports) ∨
        reports = patterns.map fun _ => .dict []) := by
  obtain ⟨reply, t, hreply, hrest⟩ := run_bind_eq_ok.1 hrun
  obtain ⟨hanswer, htools⟩ := runAnalyser_eq_ok hreply
  split_ifs at hrest with hcode
  · obtain ⟨hreports, rfl⟩ := run_lift_eq_ok.1 hrest
    exact ⟨htools, Or.inl ⟨reply.output, hanswer (by simpa using hcode), hreports⟩⟩
  · obtain ⟨hreports, rfl⟩ := run_pure_eq_ok.1 hrest
    exact ⟨htools, Or.inr hreports.symm⟩

theorem reportsOf_eq_ok {lines : List String} (hreports : reportsOf patterns lines = .ok reports) :
    reports.length = lines.length ∧
      ∀ (k : ℕ) report, reports[k]? = some report →
        ∃ pattern line, lines[k]? = some line ∧ reportOf pattern line = .ok report := by
  induction lines generalizing patterns reports with
  | nil =>
    cases patterns <;> cases hreports <;> simp
  | cons line lines ih =>
    cases patterns with
    | nil => cases hreports
    | cons pattern patterns =>
      simp only [reportsOf, bind_eq_ok, pure_eq_ok] at hreports
      obtain ⟨report, hreport, rest, hrest, rfl⟩ := hreports
      obtain ⟨hlength, heach⟩ := ih hrest
      refine ⟨by simp [hlength], fun k r hr => ?_⟩
      cases k with
      | zero =>
        cases hr
        exact ⟨pattern, line, rfl, hreport⟩
      | succ k => exact heach k r hr

/-! ### The detectors -/

theorem ofAsk_eq_ok {σ α : Type} {s s' : σ} {ask : Ask σ α} {a : α}
    (hrun : (Act.ofAsk s ask).run h = (.ok (a, s'), h')) :
    ask.run s h.tools = ((.ok a, s'), h'.tools) := by
  have hstep : (Act.ofAsk s ask).run h =
      (((ask.run s h.tools).1.1).map (·, (ask.run s h.tools).1.2),
        { h with tools := (ask.run s h.tools).2 }) := rfl
  rw [hstep] at hrun
  rcases hask : ask.run s h.tools with ⟨⟨r, s''⟩, tools⟩
  rw [hask] at hrun
  cases r with
  | error f => cases hrun
  | ok a' =>
    cases hrun
    rfl

open SuperLinear in
def worstCaseIn (reply : Reply) : Outcome Complexity := do
  require (reply.code == 0)
  let opinions ← Analysis.opinionsOf (Text.trim reply.output)
  ({ opinions := .items (opinions.map .record) } : Analysis).worstPrediction

open SuperLinear in
/-- A prediction is found in the next reply and uses it up. -/
theorem predictWorstCase_eq_ok {pattern : String} {worst : Complexity}
    (hrun : (predictWorstCase pattern).run h = (.ok worst, h')) :
    worstCaseIn (nextReply h.tools) = .ok worst ∧ h'.tools.replies = h.tools.replies.tail := by
  obtain ⟨⟨_, asked⟩, t, hask, hrest⟩ := run_bind_eq_ok.1 hrun
  obtain ⟨hworst, rfl⟩ := run_lift_eq_ok.1 hrest
  have hasked := ofAsk_eq_ok hask
  rw [queryDetectors_run rfl] at hasked
  obtain ⟨htools, hcode, os, hos, rfl⟩ := takeUp_eq_ok hasked
  refine ⟨?_, by rw [htools]⟩
  simp only [worstCaseIn, bind_eq_ok, require_eq_ok]
  exact ⟨(), by simp [hcode], os, hos, hworst⟩

theorem predictWorstCases_eq_ok
    (hrun : (patterns.mapM predictWorstCase).run h = (.ok worst, h')) :
    worst.length = patterns.length ∧
      ∀ (k : ℕ) c, worst[k]? = some c → worstCaseIn (h.tools.replies[k]?.getD {}) = .ok c := by
  induction patterns generalizing h h' worst with
  | nil =>
    obtain ⟨rfl, -⟩ := run_pure_eq_ok.1 hrun
    simp
  | cons pattern patterns ih =>
    rw [mapM_cons] at hrun
    obtain ⟨c, t, hc, hrun⟩ := run_bind_eq_ok.1 hrun
    obtain ⟨cs, t', hcs, hrun⟩ := run_bind_eq_ok.1 hrun
    obtain ⟨rfl, -⟩ := run_pure_eq_ok.1 hrun
    obtain ⟨hfirst, hreplies⟩ := predictWorstCase_eq_ok hc
    obtain ⟨hlength, heach⟩ := ih hcs
    refine ⟨by simp [hlength], fun k d hd => ?_⟩
    cases k with
    | zero =>
      cases hd
      rw [← head?_eq_getElem?]
      exact hfirst
    | succ k =>
      have hk := heach k d hd
      rwa [hreplies, getElem?_tail] at hk

/-! ### Entries -/

/-- The metrics of the pattern `r` at place `k` of a batch of `size` patterns, measured on the host
`h`: its own pattern and translation, what line `k` of the analyser says, and what reply `k` of the
detectors predicts. -/
structure Entry (limits : Automaton.Limits) (analyses : Analyses) (h : Host) (size k : ℕ)
    (r : Regex) (m : Metrics) : Prop where
  pattern : ∃ p, r.pattern = some (.str p) ∧ m.pattern = .str p ∧ m.csharp = Pattern.toCSharp "i" p
  languages : r.staticLanguages = .ok m.staticLanguages ∧
    r.dynamicLanguages = .ok m.dynamicLanguages
  analysed : analyses.automaton = true → ∃ output line graph,
    h.nextAnswer = .done 0 output ∧ (Text.lines output).length = size ∧
      (Text.lines output)[k]? = some line ∧ Says line m.valid m.features m.automaton graph ∧
      (⟨m.paths, m.density⟩ : Automaton.Measures) =
        if analyses.simplePaths then measuresOf limits graph else .unknown
  unanalysed : analyses.automaton = false →
    m.valid = .bool false ∧ m.features = [] ∧ m.automaton = .dict [] ∧
      (⟨m.paths, m.density⟩ : Automaton.Measures) = .unknown
  counts : distinctFeatures m.features = .ok m.distinctFeatures ∧
    usesSuperLinear m.features = .ok m.usesSuperLinear
  worstCase : if analyses.worstCase then worstCaseIn (h.tools.replies[k]?.getD {}) = .ok m.worstCase
    else m.worstCase = .unknown

theorem toCSharp_eq_ok {r : Regex} {c : String} (hc : toCSharp r = .ok c) :
    ∃ p, r.pattern = some (.str p) ∧ c = Pattern.toCSharp "i" p := by
  simp only [toCSharp, bind_eq_ok, pure_eq_ok, field_eq_ok, Value.text_eq_ok] at hc
  obtain ⟨_, hp, p, rfl, rfl⟩ := hc
  exact ⟨p, hp, rfl⟩

/-- Metrics are put together from the parts that were found, and nothing else. -/
theorem metricsOf_eq_ok {r : Regex} {csharp : String} {report : Value}
    {measures : Automaton.Measures} {worst : SuperLinear.Complexity} {m : Metrics}
    (hm : metricsOf analyses r csharp report measures worst = .ok m) :
    r.pattern = some m.pattern ∧ r.staticLanguages = .ok m.staticLanguages ∧
      r.dynamicLanguages = .ok m.dynamicLanguages ∧ m.csharp = csharp ∧
      (⟨m.paths, m.density⟩ : Automaton.Measures) = measures ∧ m.worstCase = worst ∧
      distinctFeatures m.features = .ok m.distinctFeatures ∧
      usesSuperLinear m.features = .ok m.usesSuperLinear ∧
      (if analyses.automaton then partsOf report = .ok (m.valid, m.features, m.automaton)
        else m.valid = .bool false ∧ m.features = [] ∧ m.automaton = .dict []) := by
  unfold metricsOf at hm
  split_ifs at hm ⊢ with ha
  · simp only [bind_eq_ok, pure_eq_ok, field_eq_ok] at hm
    obtain ⟨⟨valid, features, automaton⟩, hparts, used, hused, superLinear, hsuper, p, hp,
      ss, hss, ds, hds, rfl⟩ := hm
    exact ⟨hp, hss, hds, rfl, rfl, rfl, hused, hsuper, hparts⟩
  · simp only [bind_eq_ok, pure_eq_ok, field_eq_ok] at hm
    obtain ⟨_, rfl, used, hused, superLinear, hsuper, p, hp, ss, hss, ds, hds, rfl⟩ := hm
    exact ⟨hp, hss, hds, rfl, rfl, rfl, hused, hsuper, rfl, rfl, rfl⟩

theorem metricsOfAll_eq_ok {cs : List String} {vs : List Value} {measures : List Automaton.Measures}
    {ms : List Metrics} (hall : metricsOfAll analyses rs cs vs measures worst = .ok ms)
    (hcs : cs.length = rs.length) (hvs : vs.length = rs.length)
    (hmeasures : measures.length = rs.length) (hworst : worst.length = rs.length) :
    ms.length = rs.length ∧
      ∀ (k : ℕ) r m, rs[k]? = some r → ms[k]? = some m → ∃ c v g w,
        cs[k]? = some c ∧ vs[k]? = some v ∧ measures[k]? = some g ∧ worst[k]? = some w ∧
          metricsOf analyses r c v g w = .ok m := by
  induction rs generalizing cs vs measures worst ms with
  | nil =>
    cases hall
    simp
  | cons r rs ih =>
    obtain ⟨c, cs, rfl⟩ := exists_cons_of_length_eq_add_one hcs
    obtain ⟨v, vs, rfl⟩ := exists_cons_of_length_eq_add_one hvs
    obtain ⟨g, measures, rfl⟩ := exists_cons_of_length_eq_add_one hmeasures
    obtain ⟨w, worst, rfl⟩ := exists_cons_of_length_eq_add_one hworst
    simp only [metricsOfAll, bind_eq_ok, pure_eq_ok] at hall
    obtain ⟨m, hm, ms, hms, rfl⟩ := hall
    obtain ⟨hlength, heach⟩ := ih hms (by simpa using hcs) (by simpa using hvs)
      (by simpa using hmeasures) (by simpa using hworst)
    refine ⟨by simp [hlength], fun k r' m' hr hm' => ?_⟩
    cases k with
    | zero =>
      cases hr
      cases hm'
      exact ⟨c, v, g, w, rfl, rfl, rfl, rfl, hm⟩
    | succ k => exact heach k r' m' hr hm'

/-! ### Batches -/

theorem measureAll_eq (rs : List Regex) :
    measureAll limits analyses rs = (do
      let csharp ← liftM (rs.mapM toCSharp)
      let reports ← (if analyses.automaton then analyse csharp
        else pure (rs.map fun _ => .dict []) : Act (List Value))
      let measures ← liftM (if analyses.automaton && analyses.simplePaths then
          reports.mapM (Automaton.Measures.ofReport limits)
        else .ok (rs.map fun _ => .unknown) : Outcome (List Automaton.Measures))
      let worst ← (if analyses.worstCase then csharp.mapM predictWorstCase
        else pure (rs.map fun _ => .unknown) : Act (List SuperLinear.Complexity))
      liftM (require (rs.length == reports.length))
      liftM (metricsOfAll analyses rs csharp reports measures worst)) := by
  unfold measureAll
  cases analyses.automaton <;> cases analyses.worstCase <;> rfl

theorem measures_eq_ok {measures : List Automaton.Measures}
    (hlength : rs.length = reports.length)
    (hmeasures : (if analyses.automaton && analyses.simplePaths then
        reports.mapM (Automaton.Measures.ofReport limits)
      else .ok (rs.map fun _ => .unknown)) = .ok measures) :
    measures.length = rs.length ∧
      ∀ (k : ℕ) v g, reports[k]? = some v → measures[k]? = some g →
        if analyses.automaton && analyses.simplePaths then
          Automaton.Measures.ofReport limits v = .ok g
        else g = .unknown := by
  split_ifs at hmeasures ⊢
  · refine ⟨?_, fun k v g hv hg => mapM_getElem? hmeasures hv hg⟩
    rw [hlength, (mapM_eq_ok.1 hmeasures).length_eq]
  · cases hmeasures
    refine ⟨by simp, fun k v g _ hg => ?_⟩
    simp only [getElem?_map, Option.map_eq_some_iff] at hg
    obtain ⟨_, _, rfl⟩ := hg
    rfl

theorem worst_eq_ok {csharp : List String}
    (hlength : csharp.length = rs.length)
    (hworst : (if analyses.worstCase then csharp.mapM predictWorstCase
      else pure (rs.map fun _ => .unknown) : Act _).run h = (.ok worst, h')) :
    worst.length = rs.length ∧
      ∀ (k : ℕ) w, worst[k]? = some w →
        if analyses.worstCase then worstCaseIn (h.tools.replies[k]?.getD {}) = .ok w
        else w = .unknown := by
  split_ifs at hworst ⊢
  · obtain ⟨hcount, heach⟩ := predictWorstCases_eq_ok hworst
    exact ⟨hcount.trans hlength, heach⟩
  · obtain ⟨rfl, -⟩ := run_pure_eq_ok.1 hworst
    refine ⟨by simp, fun k w hw => ?_⟩
    simp only [getElem?_map, Option.map_eq_some_iff] at hw
    obtain ⟨_, _, rfl⟩ := hw
    rfl

theorem reports_eq_ok {csharp : List String}
    (hreports : (analyse csharp).run h = (.ok reports, h')) {k : ℕ} {v : Value}
    (hv : reports[k]? = some v) :
    v = .dict [] ∨ ∃ output line pattern, h.nextAnswer = .done 0 output ∧
      (Text.lines output).length = reports.length ∧ (Text.lines output)[k]? = some line ∧
      reportOf pattern line = .ok v := by
  obtain ⟨-, ⟨output, hanswer, hlines⟩ | rfl⟩ := analyse_eq_ok hreports
  · obtain ⟨hcount, heach⟩ := reportsOf_eq_ok hlines
    obtain ⟨pattern, line, hline, hreport⟩ := heach k v hv
    exact Or.inr ⟨output, line, pattern, hanswer, hcount.symm, hline, hreport⟩
  · simp only [getElem?_map, Option.map_eq_some_iff] at hv
    obtain ⟨_, _, rfl⟩ := hv
    exact Or.inl rfl

theorem measureAll_eq_ok {ms : List Metrics}
    (hrun : (measureAll limits analyses rs).run h = (.ok ms, h')) :
    ms.length = rs.length ∧
      ∀ (k : ℕ) r m, rs[k]? = some r → ms[k]? = some m →
        Entry limits analyses h rs.length k r m := by
  simp only [measureAll_eq, run_bind_eq_ok, run_lift_eq_ok] at hrun
  obtain ⟨csharp, _, ⟨hcsharp, rfl⟩, reports, h₁, hreports, measures, _, ⟨hmeasures, rfl⟩, worst, _,
    hworst, _, _, ⟨hlength, rfl⟩, hall, rfl⟩ := hrun
  have hlength : rs.length = reports.length := by simpa [require_eq_ok] using hlength
  have hcs : csharp.length = rs.length := (mapM_eq_ok.1 hcsharp).length_eq.symm
  -- All five lists are as long as the batch, so that putting them together drops nothing.
  obtain ⟨hgs, hmeasure⟩ := measures_eq_ok hlength hmeasures
  obtain ⟨hws, hpredicted⟩ := worst_eq_ok hcs hworst
  obtain ⟨hms, heach⟩ := metricsOfAll_eq_ok hall hcs hlength.symm hgs hws
  have htools : h₁.tools = h.tools := by
    split_ifs at hreports
    · exact (analyse_eq_ok hreports).1
    · obtain ⟨-, rfl⟩ := run_pure_eq_ok.1 hreports
      rfl
  refine ⟨hms, fun k r m hr hm => ?_⟩
  obtain ⟨c, v, g, w, hc, hv, hg, hw, hmetrics⟩ := heach k r m hr hm
  obtain ⟨hpattern, hstatic, hdynamic, rfl, rfl, rfl, hused, hsuper, hparts⟩ :=
    metricsOf_eq_ok hmetrics
  obtain ⟨p, hp, hcsharp⟩ := toCSharp_eq_ok (mapM_getElem? hcsharp hr hc)
  have hg := hmeasure k v _ hv hg
  refine ⟨⟨p, hp, ?_, hcsharp⟩, ⟨hstatic, hdynamic⟩, fun ha => ?_, fun ha => ?_,
    ⟨hused, hsuper⟩, ?_⟩
  · rw [hp, Option.some.injEq] at hpattern
    exact hpattern.symm
  · simp only [ha, if_true] at hreports hparts
    rcases reports_eq_ok hreports hv with
      rfl | ⟨output, line, pattern, hanswer, hcount, hline, hreport⟩
    · cases (partsOf_eq_ok hparts).1
    · obtain ⟨entries, rfl, hsays⟩ := says_of_report hreport hparts
      refine ⟨output, line, _, hanswer, hcount.trans hlength.symm, hline, hsays, ?_⟩
      simp only [ha, Bool.true_and, ofReport_dict, Except.ok.injEq] at hg
      split_ifs at hg ⊢
      · exact hg.symm
      · exact hg
  · simp only [ha, Bool.false_eq_true, Bool.false_and, if_false] at hparts hg
    exact ⟨hparts.1, hparts.2.1, hparts.2.2, hg⟩
  · rw [← htools]
    exact hpredicted k _ hw

/-- Whatever the tools answer, measuring a batch gives a result: the batch itself, after a fault, or
one list of metrics, as long as the batch, in which every entry belongs to the pattern at its
place. -/
theorem measureBatch_all_or_nothing (limits : Automaton.Limits) (analyses : Analyses)
    (rs : List Regex) (h : Host) :
    ∃ out h', (measureBatch limits analyses rs).run h = (Except.ok out, h') ∧
      ((out = .unmeasured rs ∧ ∃ f, (measureAll limits analyses rs).run h = (Except.error f, h')) ∨
        ∃ ms, out = .metrics ms ∧ ms.length = rs.length ∧
          ∀ (k : ℕ) r m, rs[k]? = some r → ms[k]? = some m →
            Entry limits analyses h rs.length k r m) := by
  unfold measureBatch
  rw [run_tryCatch, run_bind]
  rcases hall : (measureAll limits analyses rs).run h with ⟨f | ms, h'⟩
  · exact ⟨.unmeasured rs, h', rfl, Or.inl ⟨rfl, f, rfl⟩⟩
  · obtain ⟨hlength, heach⟩ := measureAll_eq_ok hall
    exact ⟨.metrics ms, h', rfl, Or.inr ⟨ms, rfl, hlength, heach⟩⟩

end RegexCorpus.Measure
