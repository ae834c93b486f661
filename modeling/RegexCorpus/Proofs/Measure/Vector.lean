import RegexCorpus.Proofs.Measure.Feature

/-!
# Feature vectors

A vector counts the features of a pattern; a count that is not known is null. The mark that says
whether the counts are complete stands among them, and is taken off only if it says so. Two readings
of a vector differ on null: counting the features that are used passes over it, and looking for the
features that take more than linear time does not.
-/

namespace RegexCorpus
open Value Entries Outcome List

namespace Entries

variable {es : Entries} {k l : String}

theorem mem_erase_str {e : Atom × Value} : e ∈ erase (.str k) es ↔ e ∈ es ∧ e.1 ≠ .str k := by
  simp [erase, Atom.samePart_str]

theorem find?_erase_of_ne (h : l ≠ k) : find? (erase (.str k) es) (.str l) = find? es (.str l) := by
  rw [find?, erase, find?_filter, find?]
  congr 2
  funext e
  by_cases hkey : e.1 = .str l <;> simp [Atom.samePart_str, hkey, h]

end Entries

namespace Measure

/-! ### Feature vectors -/

/-- Counts of features, together with the mark that says whether they are complete. -/
structure IsVector (es : Entries) (mark : Bool) : Prop where
  keys : es.Distinct
  marked : Entries.find? es (.str "valid") = some (.bool mark)
  counts : ∀ e ∈ es, e.1 ≠ .str "valid" → IsCount e.2

variable {es fs : Entries} {mark : Bool} {name : String}

theorem IsVector.eq_mark (h : IsVector es mark) {e : Atom × Value} (he : e ∈ es)
    (hkey : e.1 = .str "valid") : e.2 = .bool mark := by
  have hfound := find?_of_mem h.keys he
  rw [hkey, h.marked] at hfound
  exact (Option.some.inj hfound).symm

/-- Whether or not the mark is taken off, it is not counted. -/
theorem IsVector.distinctFeatures_eq (h : IsVector es mark) :
    distinctFeatures (unmarked (.bool mark) es) =
      .ok (usedCount (erase (.str "valid") es)) := by
  cases mark with
  | true =>
    refine distinctFeatures_counts fun e he => ?_
    obtain ⟨hmem, hkey⟩ := mem_erase_str.mp he
    exact h.counts e hmem hkey
  | false =>
    have hused : ∀ e ∈ es, isUsed e.2 = .ok (decide (0 < amount e.2)) := by
      intro e he
      by_cases hkey : e.1 = .str "valid"
      · rw [h.eq_mark he hkey]
        rfl
      · exact isUsed_count (h.counts e he hkey)
    have herase : usedCount (erase (.str "valid") es) = usedCount es := by
      rw [usedCount, erase, countP_filter]
      refine countP_congr fun e he => ?_
      by_cases hkey : e.1 = .str "valid"
      · simp [h.eq_mark he hkey, amount]
      · simp [Atom.samePart_str, hkey]
    rw [herase]
    exact distinctFeatures_eq hused

theorem find?_unmarked (mark : Value) (hname : name ≠ "valid") :
    find? (unmarked mark es) (.str name) = find? es (.str name) := by
  unfold unmarked
  split_ifs
  · exact find?_erase_of_ne hname
  · rfl

/-- The counts of the features that take more than linear time are known. -/
def KnowsSuperLinear (es : Entries) : Prop :=
  ∀ name ∈ superLinearFeatures, Entries.find? es (.str name) ≠ some .null

theorem isPositive_int (n : ℤ) : (Value.int n).isPositive = .ok (decide (0 < n)) := by
  change Except.ok (some (compare n 0) == some Ordering.gt) = _
  congr 1
  rw [Bool.eq_iff_iff]
  simp [compare_gt_iff_gt]

/-- A known count tells whether the feature is there; a count that is not known is a fault. -/
theorem IsVector.hasFeature_eq (h : IsVector es mark) (hname : name ≠ "valid") :
    (Entries.find? es (.str name) = some .null ∧
        hasFeature (unmarked (.bool mark) es) name = .error .wrongKind) ∨
      Entries.find? es (.str name) ≠ some .null ∧
        hasFeature (unmarked (.bool mark) es) name = .ok (decide (0 < es.count (.str name))) := by
  rw [hasFeature, find?_unmarked _ hname, Entries.count]
  cases hfound : Entries.find? es (.str name) with
  | none => exact .inr ⟨by simp, rfl⟩
  | some v =>
    obtain ⟨a, hmem, hkey⟩ := mem_of_find? hfound
    rw [Atom.samePart_str, decide_eq_true_eq] at hkey
    have hcount : IsCount v := h.counts (a, v) hmem (by simpa [hkey] using hname)
    cases hcount with
    | null => exact .inl ⟨rfl, rfl⟩
    | known n =>
      exact .inr ⟨by simp, isPositive_int n⟩

theorem ne_valid_of_mem (h : name ∈ superLinearFeatures) : name ≠ "valid" := by
  rintro rfl
  exact absurd h (by decide)

theorem IsVector.usesSuperLinear_eq (h : IsVector es mark) (hknown : KnowsSuperLinear es) :
    usesSuperLinear (unmarked (.bool mark) es) =
      .ok (superLinearFeatures.any fun name => decide (0 < es.count (.str name))) := by
  have hmap : superLinearFeatures.mapM (hasFeature (unmarked (.bool mark) es)) =
      .ok (superLinearFeatures.map fun name => decide (0 < es.count (.str name))) := by
    rw [mapM_eq_ok, forall₂_map_right_iff, forall₂_same]
    intro name hname
    obtain ⟨hnull, -⟩ | ⟨-, hok⟩ := h.hasFeature_eq (ne_valid_of_mem hname)
    · exact absurd hnull (hknown name hname)
    · exact hok
  rw [usesSuperLinear, hmap, ok_bind, any_map]
  rfl

theorem IsVector.knows_of_usesSuperLinear (h : IsVector es mark) {b : Bool}
    (hb : usesSuperLinear (unmarked (.bool mark) es) = .ok b) : KnowsSuperLinear es := by
  simp only [usesSuperLinear, bind_eq_ok] at hb
  obtain ⟨bs, hbs, -⟩ := hb
  intro name hname hnull
  obtain ⟨b, -, hok⟩ := exists_of_mem_right (mapM_eq_ok.mp hbs).flip hname
  obtain ⟨-, herror⟩ | ⟨hknown, -⟩ := h.hasFeature_eq (ne_valid_of_mem hname)
  · cases herror.symm.trans hok
  · exact hknown hnull

/-! ### Well-formed lines -/

/-- The line is a well-formed one, and gives these features. An invalid pattern has none. -/
inductive Reports (line : String) : Entries → Prop
  | invalid {answer report : Entries}
      (hline : Json.parse (Text.trim line) = .ok (.dict answer))
      (hreport : Entries.find? answer (.str "regexMetrics") = some (.dict report))
      (hvalid : Entries.find? report (.str "validCSharpRegex") = some (.bool false)) :
      Reports line []
  | valid {answer report features automaton : Entries} {mark : Bool} {complete : Value}
      (hline : Json.parse (Text.trim line) = .ok (.dict answer))
      (hreport : Entries.find? answer (.str "regexMetrics") = some (.dict report))
      (hvalid : Entries.find? report (.str "validCSharpRegex") = some (.bool true))
      (hfeatures : Entries.find? report (.str "featureVector") = some (.dict features))
      (hvector : IsVector features mark)
      (hautomaton : Entries.find? report (.str "automataMeasures") = some (.dict automaton))
      (hcomplete : Entries.find? automaton (.str "nfa_orig_completeInfo") = some complete) :
      Reports line features

/-- The features as they are counted: without their mark, if it says that they are complete. -/
inductive CountedAs : Entries → Entries → Prop
  | none : CountedAs [] []
  | vector {es : Entries} {mark : Bool} (h : IsVector es mark) :
      CountedAs es (unmarked (.bool mark) es)

theorem CountedAs.distinctFeatures_eq (h : CountedAs es fs) :
    distinctFeatures fs = .ok (usedCount (erase (.str "valid") es)) := by
  cases h with
  | none => rfl
  | vector h => exact h.distinctFeatures_eq

theorem CountedAs.usesSuperLinear_eq (h : CountedAs es fs) (hknown : KnowsSuperLinear es) :
    usesSuperLinear fs =
      .ok (superLinearFeatures.any fun name => decide (0 < es.count (.str name))) := by
  cases h with
  | none => rfl
  | vector h => exact h.usesSuperLinear_eq hknown

theorem CountedAs.knows_of_usesSuperLinear (h : CountedAs es fs) {b : Bool}
    (hb : usesSuperLinear fs = .ok b) : KnowsSuperLinear es := by
  cases h with
  | none => exact fun name _ h => by cases h
  | vector h => exact h.knows_of_usesSuperLinear hb

variable {line pattern : String}

/-- What a well-formed line says is what it gives. -/
theorem Reports.countedAs (h : Reports line es) {valid automaton : Value} {graph : Option Value}
    (hsaid : Says line valid fs automaton graph) : CountedAs es fs := by
  cases h with
  | invalid hline hreport hvalid =>
    cases hsaid with
    | unreadable | invalid => exact .none
    | valid hline' hreport' hvalid' hyes =>
      cases hline.symm.trans hline'
      cases hreport.symm.trans hreport'
      cases hvalid.symm.trans hvalid'
      cases hyes
  | valid hline hreport hvalid hfeatures hvector =>
    cases hsaid with
    | unreadable hline' => cases hline.symm.trans hline'
    | invalid hline' hreport' hvalid' hno =>
      cases hline.symm.trans hline'
      cases hreport.symm.trans hreport'
      cases hvalid.symm.trans hvalid'
      cases hno
    | valid hline' hreport' hvalid' hyes hfeatures' hmark =>
      cases hline.symm.trans hline'
      cases hreport.symm.trans hreport'
      cases hfeatures.symm.trans hfeatures'
      cases hvector.marked.symm.trans hmark
      exact .vector hvector

theorem partsOf_invalid {report : Entries}
    (hvalid : find? report (.str "validCSharpRegex") = some (.bool false)) :
    partsOf (.dict report) = .ok (.bool false, [], .dict []) := by
  rw [partsOf, get_eq_ok.mpr ⟨report, rfl, hvalid⟩]
  rfl

theorem partsOf_valid {report features : Entries} {automaton : Value}
    (hvalid : find? report (.str "validCSharpRegex") = some (.bool true))
    (hfeatures : find? report (.str "featureVector") = some (.dict features))
    (hautomaton : find? report (.str "automataMeasures") = some automaton) :
    partsOf (.dict report) = .ok (.bool true, features, automaton) := by
  rw [partsOf, get_eq_ok.mpr ⟨report, rfl, hvalid⟩, ok_bind,
    if_pos (show (Value.bool true).holds = true from rfl),
    get_eq_ok.mpr ⟨report, rfl, hfeatures⟩, get_eq_ok.mpr ⟨report, rfl, hautomaton⟩]
  rfl

theorem checkValid_dict {report features automaton : Entries} {mark complete : Value}
    (hfeatures : find? report (.str "featureVector") = some (.dict features))
    (hmark : find? features (.str "valid") = some mark)
    (hautomaton : find? report (.str "automataMeasures") = some (.dict automaton))
    (hcomplete : find? automaton (.str "nfa_orig_completeInfo") = some complete) :
    checkValid (.dict report) = .ok (.dict (unmarkedIn mark features report)) := by
  have hkept : find? (unmarkedIn mark features report) (.str "automataMeasures") =
      some (.dict automaton) := by
    rw [find?_unmarkedIn_of_ne (by decide), hautomaton]
  simp only [checkValid, bind_eq_ok, get_eq_ok]
  refine ⟨_, ⟨report, rfl, hfeatures⟩, mark, ⟨features, rfl, hmark⟩, ?_⟩
  split_ifs with hholds
  · have hput : (Value.dict report).put (.str "featureVector") (without "valid" (.dict features)) =
        .ok (.dict (unmarkedIn mark features report)) := by
      rw [unmarkedIn, if_pos hholds, unmarked, if_pos hholds]
      rfl
    rw [hput, ok_bind, get_eq_ok.mpr ⟨_, rfl, hkept⟩, ok_bind,
      get_eq_ok.mpr ⟨automaton, rfl, hcomplete⟩]
    rfl
  · rw [unmarkedIn, if_neg hholds, pure_bind, get_eq_ok.mpr ⟨_, rfl, hautomaton⟩,
      ok_bind, get_eq_ok.mpr ⟨automaton, rfl, hcomplete⟩]
    rfl

theorem reportOf_dict {answer report : Entries}
    (hline : Json.parse (Text.trim line) = .ok (.dict answer))
    (hreport : find? answer (.str "regexMetrics") = some (.dict report)) :
    reportOf pattern line = (do
      if (← (Value.dict report).get "validCSharpRegex").holds then checkValid (.dict report)
      else return .dict report) := by
  have hhas : (Value.dict answer).has (.str "regexMetrics") = .ok true := by
    change Except.ok (has answer (.str "regexMetrics")) = _
    rw [has_eq_isSome, hreport]
    rfl
  rw [reportOf, hline]
  change (do
    require (← (Value.dict answer).has (.str "regexMetrics"))
    let report ← (Value.dict answer).get "regexMetrics"
    if (← report.get "validCSharpRegex").holds then checkValid report else return report) = _
  rw [hhas, ok_bind, get_eq_ok.mpr ⟨answer, rfl, hreport⟩]
  rfl

/-- A well-formed line gives a report from which all that is needed can be read. -/
theorem Reports.exists_parts (h : Reports line es) (pattern : String) :
    ∃ report valid fs automaton, reportOf pattern line = .ok (.dict report) ∧
      partsOf (.dict report) = .ok (valid, fs, automaton) := by
  cases h with
  | @invalid answer report hline hreport hvalid =>
    refine ⟨report, _, _, _, ?_, partsOf_invalid hvalid⟩
    rw [reportOf_dict hline hreport, get_eq_ok.mpr ⟨report, rfl, hvalid⟩]
    rfl
  | @valid answer report _ automaton mark complete hline hreport hvalid hfeatures hvector
      hautomaton hcomplete =>
    refine ⟨unmarkedIn (.bool mark) es report, .bool true, _, .dict automaton, ?_,
      partsOf_valid ?_ (find?_unmarkedIn_features hfeatures) ?_⟩
    · rw [reportOf_dict hline hreport, get_eq_ok.mpr ⟨report, rfl, hvalid⟩]
      exact checkValid_dict hfeatures hvector.marked hautomaton hcomplete
    · rw [find?_unmarkedIn_of_ne (by decide), hvalid]
    · rw [find?_unmarkedIn_of_ne (by decide), hautomaton]

end Measure
end RegexCorpus
