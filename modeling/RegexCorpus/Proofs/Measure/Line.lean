import RegexCorpus.Proofs.Automaton.Measure
import RegexCorpus.Proofs.Measure.Batch
import RegexCorpus.Proofs.Record.Counts

/-!
# Lines of metrics

What the analyser says of a pattern was read from a text, so that it can be written again; and what
is counted on top of it stays below the length of that text, or below a limit. Hence the metrics of
a pattern have a line, provided that no length has more digits than a number may have.
-/

namespace RegexCorpus
open List Value Json

/-! ### Lengths -/

namespace Text

theorem length_le_of_mem_linesFrom {line cs l : List Char} (h : l ∈ linesFrom line cs) :
    l.length ≤ line.length + cs.length := by
  fun_induction linesFrom line cs with
  | case1 line hempty => simp at h
  | case2 line hfull =>
    rw [mem_singleton] at h
    simp [h]
  | case3 line cs ih | case4 line c cs _ hend ih =>
    rcases mem_cons.mp h with rfl | h
    · simp
    · have := ih h
      simp only [length_nil, length_cons] at this ⊢
      omega
  | case5 line c cs _ hmore ih =>
    have := ih h
    simp only [length_cons] at this ⊢
    omega

theorem length_le_of_mem_lines {s l : String} (h : l ∈ lines s) : l.length ≤ s.length := by
  obtain ⟨cs, hcs, rfl⟩ := mem_map.mp h
  have hlength := length_le_of_mem_linesFrom hcs
  rw [length_nil, Nat.zero_add] at hlength
  rwa [String.length_ofList, ← String.length_toList]

theorem length_trim_le (s : String) : (trim s).length ≤ s.length := by
  rw [trim, String.length_ofList, trimChars, length_reverse, ← String.length_toList]
  calc ((s.toList.dropWhile isBlank).reverse.dropWhile isBlank).length
      ≤ (s.toList.dropWhile isBlank).reverse.length := (dropWhile_sublist _).length_le
    _ = (s.toList.dropWhile isBlank).length := length_reverse
    _ ≤ s.toList.length := (dropWhile_sublist _).length_le

end Text

/-! ### Parts of what was read -/

section
variable {n room : ℕ} {es fs : Entries} {k : Atom} {v : Value}

namespace Value

theorem FitsRoom.find? (h : FitsRoom (room + 1) (.dict es)) (hv : Entries.find? es k = some v) :
    FitsRoom room v := by
  obtain ⟨a, hmem, -⟩ := Entries.mem_of_find? hv
  refine ⟨?_, (within_dict.mp h.within _ hmem).2⟩
  cases h.isJson with
  | object _ hms =>
    obtain ⟨m, hm, hma⟩ := mem_map.mp hmem
    cases hma
    exact hms m hm

theorem FitsRoom.sublist (h : FitsRoom (room + 1) (.dict es)) (hsub : fs.Sublist es) :
    FitsRoom (room + 1) (.dict fs) := by
  refine ⟨?_, within_dict.mpr fun e he => within_dict.mp h.within e (hsub.subset he)⟩
  cases h.isJson with
  | object hkeys hms =>
    obtain ⟨ns, hns, rfl⟩ := sublist_map_iff.mp hsub
    exact .object (hkeys.sublist (hns.map _)) fun n hn => hms n (hns.subset hn)

end Value

namespace Json

theorem Narrow.find? (h : Narrow n (.dict es)) (hv : Entries.find? es k = some v) : Narrow n v := by
  obtain ⟨a, hmem, -⟩ := Entries.mem_of_find? hv
  cases h with
  | dict _ h => exact h _ hmem

theorem Narrow.length_le (h : Narrow n (.dict es)) : es.length ≤ n := by
  cases h with
  | dict hlength => exact hlength

end Json
end

/-- However many features an answer of this length names, their number can be written. -/
def Answer.Moderate : Answer → Prop
  | .done _ output => (Atom.int (2 * output.length + 2 : ℕ)).Short
  | _ => True

namespace Measure

variable {h : Host} {limits : Automaton.Limits} {analyses : Analyses}

theorem unmarked_sublist (mark : Value) (features : Entries) :
    (unmarked mark features).Sublist features := by
  unfold unmarked
  split_ifs
  · exact filter_sublist
  · exact .refl features

/-- The levels that are left for the parts of metrics. -/
def partRoom : ℕ := Json.nestingLimit - 1

/-- What a line says can be written, and there are not more features than the line is long. -/
theorem Says.fits {line : String} {valid automaton : Value} {features : Entries}
    {graph : Option Value} (hmeans : Says line valid features automaton graph) :
    valid.FitsRoom partRoom ∧ Value.FitsRoom partRoom (.dict features) ∧
      automaton.FitsRoom partRoom ∧ features.length ≤ 2 * line.length + 2 := by
  have hroom : Json.nestingLimit = 987 + 1 + 1 := rfl
  have hfewer : 987 ≤ partRoom := by decide
  have hempty : Value.FitsRoom partRoom (.dict []) := fitsRoom_empty 987
  cases hmeans with
  | unreadable hline =>
    exact ⟨by simp, hempty, hempty, Nat.zero_le _⟩
  | invalid hline hreport hvalid hno =>
    have hanswer := parse_sound hline
    rw [hroom] at hanswer
    exact ⟨((hanswer.find? hreport).find? hvalid).mono hfewer, hempty, hempty, Nat.zero_le _⟩
  | @valid answer report found _ _ mark hline hreport hvalid hyes hfeatures hmark hautomaton =>
    have hanswer := parse_sound hline
    rw [hroom] at hanswer
    have hreports := hanswer.find? hreport
    have hfound : Value.FitsRoom (986 + 1) (.dict found) := hreports.find? hfeatures
    refine ⟨(hreports.find? hvalid).mono hfewer, ?_, (hreports.find? hautomaton).mono hfewer, ?_⟩
    · exact (hfound.sublist (unmarked_sublist mark found)).mono hfewer
    · have hnarrow := (((narrow_of_parse hline).find? hreport).find? hfeatures).length_le
      have hless := (unmarked_sublist mark found).length_le
      have htrim := Text.length_trim_le line
      omega

theorem plain_measuresOf (hlimit : (Atom.int limits.paths).Short) (graph : Option Value) :
    (measuresOf limits graph).Plain := by
  unfold measuresOf
  split
  · exact Automaton.Measures.plain_unknown
  · exact Automaton.Measures.plain_unknown
  · split_ifs
    · exact Automaton.Measures.plain_unknown
    · exact Automaton.Measures.plain_ofText hlimit _

theorem distinctFeatures_le {features : Entries} {n : ℕ}
    (hn : distinctFeatures features = .ok n) : n ≤ features.length := by
  obtain ⟨used, hused, hn⟩ := Outcome.bind_eq_ok.mp hn
  cases hn
  exact (length_filter_le _ _).trans_eq (mapM_eq_ok.mp hused).length_eq.symm

/-! ### Metrics -/

/-- What was found on a pattern can be written. -/
structure Metrics.Fits (m : Metrics) : Prop where
  valid : m.valid.FitsRoom partRoom
  features : Value.FitsRoom partRoom (.dict m.features)
  automaton : m.automaton.FitsRoom partRoom
  measures : (⟨m.paths, m.density⟩ : Automaton.Measures).Plain
  used : (Atom.int m.distinctFeatures).Short

theorem Metrics.Fits.exists_toLine {m : Metrics} (hm : m.Fits) {p : String}
    (hpattern : m.pattern = .str p) (hlength : (Atom.int m.csharp.length).Short) :
    ∃ line, m.toLine = .ok line := by
  have hstr (s : String) : Value.FitsRoom partRoom (.str s) := .str s
  have hbool (b : Bool) : Value.FitsRoom partRoom (.bool b) := .bool b
  have hint {n : ℤ} (hn : (Atom.int n).Short) : Value.FitsRoom partRoom (.int n) := .int hn
  have hstrs (ss : List String) : Value.FitsRoom partRoom (.strs ss) := by
    refine fitsRoom_list fun v hv => ?_
    obtain ⟨s, -, rfl⟩ := mem_map.mp hv
    exact .str s
  have hmembers : ∀ e ∈ m.members, e.2.FitsRoom partRoom := by
    simp only [Metrics.members, forall_mem_cons, hpattern]
    exact ⟨hstr p, hstrs _, hstrs _, hstr _, hint hlength, hm.valid, hm.features, hm.automaton,
      hm.measures.paths.fitsRoom, hint hm.used, hstr _,
      hm.measures.density.fitsRoom, hbool _, by simp⟩
  have hdata : Value.IsJson (.object m.members) :=
    ofAtoms_object.mpr ⟨by simp [Metrics.members], fun e he => (hmembers e he).isJson⟩
  exact (exists_toLine_iff hdata _).mpr fun e he => (hmembers e he).within

/-- The metrics of a pattern have a line, unless there is something too long to say how long it
is. -/
theorem Entry.exists_toLine {size k : ℕ} {r : Regex} {m : Metrics}
    (he : Entry limits analyses h size k r m) (hlength : (Atom.int m.csharp.length).Short)
    (hanalysed : analyses.automaton = true →
      h.nextAnswer.Moderate ∧ (Atom.int limits.paths).Short) :
    ∃ line, m.toLine = .ok line := by
  obtain ⟨p, -, hpattern, -⟩ := he.pattern
  have hused := distinctFeatures_le he.counts.1
  suffices hfits : m.Fits from hfits.exists_toLine hpattern hlength
  cases hautomaton : analyses.automaton with
  | false =>
    obtain ⟨hvalid, hfeatures, hparts, hmeasures⟩ := he.unanalysed hautomaton
    have hempty : Value.FitsRoom partRoom (.dict []) := fitsRoom_empty 987
    rw [hfeatures, length_nil] at hused
    refine ⟨?_, by rwa [hfeatures], by rwa [hparts], ?_, short_digit (by omega)⟩
    · rw [hvalid]
      simp
    · rw [hmeasures]
      exact Automaton.Measures.plain_unknown
  | true =>
    obtain ⟨hmoderate, hlimit⟩ := hanalysed hautomaton
    obtain ⟨output, line, graph, hanswer, -, hline, hmeans, hmeasures⟩ := he.analysed hautomaton
    obtain ⟨hvalid, hfeatures, hparts, hcount⟩ := hmeans.fits
    refine ⟨hvalid, hfeatures, hparts, ?_, ?_⟩
    · rw [hmeasures]
      split_ifs
      · exact plain_measuresOf hlimit graph
      · exact Automaton.Measures.plain_unknown
    · have hshorter := Text.length_le_of_mem_lines (mem_of_getElem? hline)
      rw [hanswer, Answer.Moderate, short_int] at hmoderate
      rw [short_int]
      omega

end Measure
end RegexCorpus
