import RegexCorpus.Proofs.SuperLinear.Prediction

/-!
# Replies that cannot be read

Detectors that are asked may fail to answer, or answer in a way that cannot be read. Either way the
question fails. But only a reply that cannot be read is noted before it is refused: it leaves no
opinions at all in the place of those that were there before, and from then on there is neither a
worst prediction nor a language that can be tried.
-/

namespace RegexCorpus.SuperLinear

/-- The command ended well, and what it printed cannot be read as opinions. -/
def IsGarbled (reply : Reply) : Prop :=
  reply.code = 0 ∧ ∃ f, Analysis.opinionsOf (Text.trim reply.output) = .error f

namespace Analysis

variable {a a' : Analysis} {detectors variants : Value} {t t' : Tools} {f : Fault}

/-- The question can be put, and the reply to it cannot be read. -/
def Unread (a : Analysis) (detectors variants : Value) (t : Tools) : Prop :=
  (∃ query, a.detectorQuery detectors variants = .ok query) ∧ IsGarbled (nextReply t)

/-- A question that failed has changed nothing, unless its reply could not be read. -/
theorem queryDetectors_eq_error
    (hrun : (queryDetectors detectors variants).run a t = ((.error f, a'), t')) :
    a.Unread detectors variants t ∧ f = .requirement ∧ a' = { a with opinions := .plain .null } ∨
      ¬a.Unread detectors variants t ∧ a' = a := by
  cases hquery : a.detectorQuery detectors variants with
  | error g =>
    unfold queryDetectors at hrun
    rw [run_get_bind, hquery] at hrun
    cases hrun
    exact .inr ⟨by simp [Unread, hquery], rfl⟩
  | ok query =>
    rw [queryDetectors_run hquery] at hrun
    obtain ⟨hcode, h⟩ | ⟨-, os, -, h⟩ | ⟨hcode, g, hos, h⟩ := takeUp_cases hrun <;> cases h
    · exact .inr ⟨fun hunread => hcode hunread.2.1, rfl⟩
    · exact .inl ⟨⟨⟨query, hquery⟩, hcode, g, hos⟩, rfl, rfl⟩

theorem queryDetectors_of_unread (h : a.Unread detectors variants t) :
    ∃ t', (queryDetectors detectors variants).run a t =
      ((.error .requirement, { a with opinions := .plain .null }), t') := by
  obtain ⟨⟨query, hquery⟩, hcode, f, hos⟩ := h
  rw [queryDetectors_run hquery, takeUp, hcode, hos]
  exact ⟨_, rfl⟩

/-! ### An analysis without opinions -/

/-- The analysis has no worst prediction, and no language can be tried: the attempt fails before any
tool is asked, and all it may do is to reset a table. -/
structure Stuck (a : Analysis) : Prop where
  worst : a.worstPrediction = .error .wrongKind
  trial : ∀ language t, ∃ f tables,
    (validateIn language).run a t = ((.error f, { a with timedOutBy := tables }), t) ∧
      (tables = a.timedOutBy ∨ ∃ key, a.timedOutBy.put (.str key) (.dict []) = .ok tables)

theorem stuck_of_null (hnull : a.opinions = .plain .null) : a.Stuck := by
  obtain ⟨regex, timeout, powerPumps, opinions, validIn, timedOutBy⟩ := a
  obtain rfl : opinions = .plain .null := hnull
  refine ⟨rfl, fun language t => ?_⟩
  unfold validateIn
  cases language.text with
  | error g => exact ⟨g, timedOutBy, rfl, .inl rfl⟩
  | ok s =>
    rw [run_ok_bind]
    cases hsupported : supportedLanguages.contains (Text.lower s) with
    | false =>
      simp only [hsupported]
      exact ⟨_, timedOutBy, rfl, .inl rfl⟩
    | true =>
      simp only [hsupported, Bool.not_true, Bool.false_eq_true, if_false]
      rw [run_get_bind]
      cases Analysis.pattern _ with
      | error g => exact ⟨g, timedOutBy, rfl, .inl rfl⟩
      | ok p =>
        rw [run_ok_bind, run_get_bind]
        cases hput : timedOutBy.put (.str (Text.lower s)) (.dict []) with
        | error g => exact ⟨g, timedOutBy, rfl, .inl rfl⟩
        | ok tables => exact ⟨.wrongKind, tables, rfl, .inr ⟨Text.lower s, hput⟩⟩

/-- A question that fails keeps the opinions, and all else, unless the detectors ended well with
a reply that cannot be read. Then no opinions are left, whatever they were, and the analysis is
stuck. -/
theorem queryDetectors_failed
    (hrun : (queryDetectors detectors variants).run a t = ((Except.error f, a'), t')) :
    (a'.opinions = a.opinions ↔
      ¬a.Unread detectors variants t ∨ a.opinions = .plain .null) ∧
    (¬a.Unread detectors variants t → a' = a) ∧
    (a.Unread detectors variants t →
      f = .requirement ∧ a' = { a with opinions := .plain .null } ∧ a'.Stuck) := by
  obtain ⟨hunread, hf, rfl⟩ | ⟨hread, rfl⟩ := queryDetectors_eq_error hrun
  · refine ⟨?_, fun h => absurd hunread h, fun _ => ⟨hf, rfl, stuck_of_null rfl⟩⟩
    rw [or_iff_right (not_not_intro hunread), eq_comm]
  · exact ⟨by simp [hread], fun _ => rfl, fun h => absurd h hread⟩

/-- A new analysis is stuck when the detectors print nothing. -/
theorem queryDetectors_failed_silent :
    ∃ (a' : Analysis) (t' : Tools),
      (queryDetectors .null .null).run nestedQuantifier {} =
        ((Except.error .requirement, a'), t') ∧ a'.Stuck := by
  have hunread : nestedQuantifier.Unread .null .null {} := ⟨⟨_, rfl⟩, rfl, _, rfl⟩
  obtain ⟨t', hrun⟩ := queryDetectors_of_unread hunread
  exact ⟨_, t', hrun, ((queryDetectors_failed hrun).2.2 hunread).2.2⟩

/-- A detector expects exponential time. -/
def alarmed : Analysis :=
  { nestedQuantifier with
    opinions := .items [.record { predicted := .str Complexity.exponential.name }] }

/-- A report that expects exponential time, and one without a name. -/
def namelessReports : List Value := [reportBy "first" (warning "exponential" []), .object []]

theorem isGarbled_namelessReports : IsGarbled (nextReply (printing namelessReports)) := by
  refine ⟨rfl, .missingKey (.str "name"), ?_⟩
  have hfits : ∀ r ∈ namelessReports, r.FitsAt 2 := by
    simp only [namelessReports, List.forall_mem_cons, List.not_mem_nil, false_imp_iff,
      implies_true, and_true]
    exact ⟨fitsAt_reportBy (by decide) _ (fitsAt_warning (by decide) _ (by simp)),
      .object (by decide) (by simp) (by simp)⟩
  exact (opinionsOf_printout hfits).trans rfl

/-- An earlier opinion is lost on account of one report that has no name. -/
theorem queryDetectors_drops_opinions :
    ∃ (a' : Analysis) (t' : Tools),
      (queryDetectors .null .null).run alarmed (printing namelessReports) =
        ((Except.error .requirement, a'), t') ∧
      a'.opinions ≠ alarmed.opinions ∧ alarmed.worstPrediction = .ok .exponential ∧
      a'.worstPrediction = .error .wrongKind := by
  have hunread : alarmed.Unread .null .null (printing namelessReports) :=
    ⟨⟨_, rfl⟩, isGarbled_namelessReports⟩
  obtain ⟨t', hrun⟩ := queryDetectors_of_unread hunread
  exact ⟨_, t', hrun, by simp [alarmed], rfl, rfl⟩

end Analysis
end RegexCorpus.SuperLinear
