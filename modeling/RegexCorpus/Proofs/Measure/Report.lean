import RegexCorpus.Measure.Batch
import RegexCorpus.Proofs.Value

/-!
# What a line of the analyser says

`Says line valid features automaton graph` gives the meaning of one line of the automaton analyser,
without the reports that carry it from stage to stage: a line that is no JSON counts as an invalid
pattern, and an invalid pattern has neither features nor an automaton. `says_of_report` shows that
the stages of a measurement find just this.
-/

namespace RegexCorpus.Measure
open Value Entries Outcome

/-- Features without their mark, if it says that they are complete. -/
def unmarked (mark : Value) (features : Entries) : Entries :=
  if mark.holds then Entries.erase (.str "valid") features else features

/-- What a line says on its pattern: whether it is valid, how often it uses each feature, its
automaton, and the graph of the automaton, if one is given. The mark of complete features is not one
of them. -/
inductive Says (line : String) : Value → Entries → Value → Option Value → Prop
  | unreadable {f : Fault} (hline : Json.parse (Text.trim line) = .error f) :
      Says line (.bool false) [] (.dict []) none
  | invalid {answer report : Entries} {valid : Value}
      (hline : Json.parse (Text.trim line) = .ok (.dict answer))
      (hreport : Entries.find? answer (.str "regexMetrics") = some (.dict report))
      (hvalid : Entries.find? report (.str "validCSharpRegex") = some valid)
      (hno : valid.holds = false) :
      Says line valid [] (.dict []) (Entries.find? report (.str "efreeNFAGraph"))
  | valid {answer report features : Entries} {valid automaton mark : Value}
      (hline : Json.parse (Text.trim line) = .ok (.dict answer))
      (hreport : Entries.find? answer (.str "regexMetrics") = some (.dict report))
      (hvalid : Entries.find? report (.str "validCSharpRegex") = some valid)
      (hyes : valid.holds = true)
      (hfeatures : Entries.find? report (.str "featureVector") = some (.dict features))
      (hmark : Entries.find? features (.str "valid") = some mark)
      (hautomaton : Entries.find? report (.str "automataMeasures") = some automaton) :
      Says line valid (unmarked mark features) automaton
        (Entries.find? report (.str "efreeNFAGraph"))

/-- The measures of a graph that may be missing, or be the note that it was not found in time. -/
def measuresOf (limits : Automaton.Limits) : Option Value → Automaton.Measures
  | none => .unknown
  | some .null => .unknown
  | some text => if text.same (.str "TIMEOUT") then .unknown else .ofText limits text

theorem ofReport_dict (limits : Automaton.Limits) (report : Entries) :
    Automaton.Measures.ofReport limits (.dict report) =
      .ok (measuresOf limits (find? report (.str "efreeNFAGraph"))) := by
  simp only [Automaton.Measures.ofReport, Value.has, Value.get, Value.item, Value.toKey,
    has_eq_isSome, bind, Except.bind, pure, Except.pure]
  cases find? report (.str "efreeNFAGraph") with
  | none => rfl
  | some text =>
    simp only [Option.isSome_some, Bool.not_true, Bool.false_eq_true, if_false]
    cases text with
    | atom a => cases a <;> simp only [measuresOf] <;> split_ifs <;> rfl
    | list | dict => simp only [measuresOf]; split_ifs <;> rfl

/-! ### From a line to its report -/

/-- A report whose features are without their mark. -/
def unmarkedIn (mark : Value) (features report : Entries) : Entries :=
  if mark.holds then Entries.set (.str "featureVector") (.dict (unmarked mark features)) report
  else report

theorem find?_unmarkedIn_of_ne {mark : Value} {features report : Entries} {k : String}
    (hk : k ≠ "featureVector") :
    find? (unmarkedIn mark features report) (.str k) = find? report (.str k) := by
  unfold unmarkedIn
  split_ifs
  · exact find?_set_of_ne hk
  · rfl

theorem find?_unmarkedIn_features {mark : Value} {features report : Entries}
    (h : find? report (.str "featureVector") = some (.dict features)) :
    find? (unmarkedIn mark features report) (.str "featureVector") =
      some (.dict (unmarked mark features)) := by
  unfold unmarkedIn
  split_ifs with hmark
  · exact find?_set_self
  · rw [h, unmarked, if_neg hmark]

/-- A valid report keeps its entries, but for the mark of its features. -/
theorem checkValid_eq_ok {found : Entries} {report : Value}
    (h : checkValid (.dict found) = .ok report) :
    ∃ features mark automaton,
      find? found (.str "featureVector") = some (.dict features) ∧
      find? features (.str "valid") = some mark ∧
      find? found (.str "automataMeasures") = some automaton ∧
      report = .dict (unmarkedIn mark features found) := by
  simp only [checkValid, bind_eq_ok, get_eq_ok] at h
  obtain ⟨_, ⟨_, hfound, hfeatures⟩, mark, ⟨features, rfl, hmark⟩, h⟩ := h
  cases hfound
  split_ifs at h with hm
  · simp only [Value.put, Value.toKey, without, bind_eq_ok, pure_eq_ok, get_eq_ok] at h
    obtain ⟨_, ⟨_, hkey, rfl⟩, automaton, ⟨_, hset, hautomaton⟩, _, _, rfl⟩ := h
    cases hkey
    cases hset
    rw [find?_set_of_ne (by decide)] at hautomaton
    exact ⟨features, mark, automaton, hfeatures, hmark, hautomaton,
      by simp [unmarkedIn, unmarked, hm]⟩
  · simp only [bind_eq_ok, pure_eq_ok, get_eq_ok] at h
    obtain ⟨_, rfl, automaton, ⟨_, hfound, hautomaton⟩, _, _, rfl⟩ := h
    cases hfound
    exact ⟨features, mark, automaton, hfeatures, hmark, hautomaton, by simp [unmarkedIn, hm]⟩

theorem partsOf_eq_ok {entries features : Entries} {valid automaton : Value}
    (h : partsOf (.dict entries) = .ok (valid, features, automaton)) :
    find? entries (.str "validCSharpRegex") = some valid ∧
      (valid.holds = false ∧ features = [] ∧ automaton = .dict [] ∨
       valid.holds = true ∧ find? entries (.str "featureVector") = some (.dict features) ∧
         find? entries (.str "automataMeasures") = some automaton) := by
  simp only [partsOf, bind_eq_ok, get_eq_ok] at h
  obtain ⟨v, ⟨_, hentries, hv⟩, h⟩ := h
  cases hentries
  split_ifs at h with hyes
  · simp only [bind_eq_ok, get_eq_ok, pure_eq_ok, Prod.mk.injEq] at h
    obtain ⟨vf, ⟨_, hentries, hvf⟩, fs, hfs, a, ⟨_, hentries', ha⟩, rfl, rfl, rfl⟩ := h
    cases hentries
    cases hentries'
    cases vf with
    | atom | list => cases hfs
    | dict => cases hfs; exact ⟨hv, Or.inr ⟨hyes, hvf, ha⟩⟩
  · cases h
    exact ⟨hv, Or.inl ⟨by simpa using hyes, rfl, rfl⟩⟩

theorem says_of_report {pattern line : String} {report valid automaton : Value} {features : Entries}
    (hreport : reportOf pattern line = .ok report)
    (hparts : partsOf report = .ok (valid, features, automaton)) :
    ∃ entries, report = .dict entries ∧
      Says line valid features automaton (find? entries (.str "efreeNFAGraph")) := by
  unfold reportOf at hreport
  split at hreport
  · rename_i f hline
    cases hreport
    cases hparts
    exact ⟨_, rfl, .unreadable hline⟩
  · rename_i answer hline
    simp only [bind_eq_ok, get_eq_ok] at hreport
    obtain ⟨_, _, _, _, _, ⟨es, rfl, hes⟩, v, ⟨found, rfl, hv⟩, hreport⟩ := hreport
    split_ifs at hreport with hyes
    · obtain ⟨fs, mark, a, hfs, hmark, ha, rfl⟩ := checkValid_eq_ok hreport
      obtain ⟨hv', hcases⟩ := partsOf_eq_ok hparts
      rw [find?_unmarkedIn_of_ne (by decide), hv, Option.some.injEq] at hv'
      subst hv'
      rcases hcases with ⟨hno, -⟩ | ⟨-, hf, hm⟩
      · rw [hno] at hyes
        cases hyes
      · rw [find?_unmarkedIn_features hfs, Option.some.injEq, Value.dict.injEq] at hf
        rw [find?_unmarkedIn_of_ne (by decide), ha, Option.some.injEq] at hm
        subst hf hm
        refine ⟨_, rfl, ?_⟩
        rw [find?_unmarkedIn_of_ne (by decide)]
        exact .valid hline hes hv hyes hfs hmark ha
    · cases hreport
      obtain ⟨hv', hcases⟩ := partsOf_eq_ok hparts
      rw [hv, Option.some.injEq] at hv'
      subst hv'
      rcases hcases with ⟨hno, rfl, rfl⟩ | ⟨hyes', -⟩
      · exact ⟨found, rfl, .invalid hline hes hv hno⟩
      · exact absurd hyes' hyes

end RegexCorpus.Measure
