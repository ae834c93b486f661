import RegexCorpus.Proofs.SuperLinear.Prediction
import RegexCorpus.Proofs.SuperLinear.Validation

/-!
# The performance after a language was tried

An input that can be tried brings in responses, and the performance follows from these. Where no
opinion has such an input, nothing new is learned: what was known of the language before still
counts, and a language of which nothing is known gets linear time. But before it does, the first
input of every opinion that takes the pattern for vulnerable is looked at, and there may be none.
-/

namespace RegexCorpus.SuperLinear
open List

/-- The opinion takes the pattern for vulnerable and does not suggest a single input. -/
def Opinion.isUnfounded (o : Opinion) : Bool := o.isVuln.holds && o.suggestions.isEmpty

namespace Analysis

variable {os : List Opinion}

theorem flatMap_triable_records (inputs : List EvilInput) :
    (inputs.map Held.record).flatMap triable = inputs.filter (·.couldParse.holds) := by
  induction inputs with
  | nil => rfl
  | cons i inputs ih =>
    rw [map_cons, flatMap_cons, filter_cons, ih, triable]
    cases i.couldParse.holds <;> rfl

/-- An opinion without an input to try is harmless, except that one without any input cannot be
looked at. -/
theorem harmless_of_reported {o : Opinion} {pattern raw : Value} (h : o.Reported pattern raw)
    (hnone : trials (.record o) = []) :
    harmless (.record o) = if o.isUnfounded then .error .outOfRange else .ok true := by
  cases h with
  | timedOut | failed | unanalysed | safe => rfl
  | @vulnerable _ _ _ _ _ _ inputs =>
    have hfilter : inputs.filter (·.couldParse.holds) = [] := by
      rw [← flatMap_triable_records]
      exact hnone
    cases inputs with
    | nil => rfl
    | cons i inputs =>
      have hfirst : i.couldParse.holds = false := by
        simpa using filter_eq_nil_iff.mp hfilter i mem_cons_self
      change Except.ok (!i.couldParse.holds) = _
      rw [hfirst]
      rfl

theorem forIn_harmless
    (hos : ∀ o ∈ os,
      harmless (.record o) = if o.isUnfounded then .error .outOfRange else .ok true) :
    (forIn (os.map Held.record) PUnit.unit fun slot _ => do
      require (← harmless slot)
      pure (.yield PUnit.unit) : Outcome PUnit) =
        if os.any Opinion.isUnfounded then .error .outOfRange else .ok ⟨⟩ := by
  induction os with
  | nil => rfl
  | cons o os ih =>
    rw [forall_mem_cons] at hos
    rw [map_cons, forIn_cons, hos.1, any_cons]
    cases o.isUnfounded with
    | true => rfl
    | false => exact ih hos.2

/-- The answer for a language in which nothing was tried. -/
def answerUntried (a : Analysis) (key : String) (os : List Opinion) : Outcome Performance :=
  match a.validIn.get key with
  | .ok taken => .ok (if taken.holds then .linear else .invalidPattern)
  | .error _ => if os.any Opinion.isUnfounded then .error .outOfRange else .ok .linear

theorem performance_of_nothing_tried {key s : String} {a : Analysis} {power : Atom} {tables : Value}
    (hos : ∀ o ∈ os, harmless (.record o) = if o.isUnfounded then .error .outOfRange else .ok true)
    (hopinions : a.opinions = .items (os.map .record)) (hpower : a.powerPumps = .atom power)
    (hput : a.timedOutBy.put (.str key) (.dict []) = .ok tables) (hs : Text.lower s = key) :
    ({ a with timedOutBy := tables } : Analysis).performance (.str s) = a.answerUntried key os := by
  cases hvalid : a.validIn.get key with
  | ok taken =>
    have hverdict : ({ a with timedOutBy := tables } : Analysis).verdict? key =
        .ok (if taken.holds then some (.dict []) else none) := by
      rw [verdict?, hvalid, Outcome.ok_bind, Value.get_of_put hput]
      cases taken.holds <;> rfl
    have hanswer : a.answerUntried key os =
        .ok (if taken.holds then .linear else .invalidPattern) := by
      rw [answerUntried, hvalid]
    rw [hanswer]
    cases htaken : taken.holds with
    | true =>
      have htable : IsTableOf [] (.dict []) := ⟨[], rfl, fun _ => rfl⟩
      rw [htaken] at hverdict
      exact performance_of_table hverdict htable hpower hs
    | false =>
      rw [htaken] at hverdict
      exact performance_of_refused hverdict hs
  | error f =>
    have hverdict : ({ a with timedOutBy := tables } : Analysis).verdict? key = .error f := by
      rw [verdict?, hvalid]
      rfl
    have hanswer : a.answerUntried key os =
        if os.any Opinion.isUnfounded then .error .outOfRange else .ok .linear := by
      rw [answerUntried, hvalid]
    have htext : (Value.str s).text = .ok s := rfl
    rw [performance, htext, Outcome.ok_bind, hs, hanswer]
    simp only [hverdict]
    rw [hopinions, Records.parts, Outcome.ok_bind, forIn_harmless hos]
    cases os.any Opinion.isUnfounded <;> rfl

/-- When the detectors were asked with success and a language was tried to the end on what they said,
there is an answer for the language if an input could be tried. If none could, the answer is that for
a language in which nothing was tried: there is none if nothing was known of the language before and
some opinion takes the pattern for vulnerable without an input. -/
theorem performance_of_validateIn {detectors variants : Value} {language s : String} {power : Atom}
    {a₀ asked a a' : Analysis} {t₀ t₁ t t' : Tools}
    (hasked : (queryDetectors detectors variants).run a₀ t₀ = ((Except.ok (), asked), t₁))
    (hopinions : a.opinions = asked.opinions) (hpower : a.powerPumps = .atom power)
    (hrun : (validateIn (.str language)).run a t = ((Except.ok (), a'), t'))
    (hs : Text.lower s = Text.lower language) :
    ∃ os, opinionsOf (Text.trim (nextReply t₀).output) = .ok os ∧
      a.opinions = .items (os.map .record) ∧
      ((∃ o ∈ os, trials (.record o) ≠ []) → ∃ p, a'.performance (.str s) = .ok p) ∧
      ((∀ o ∈ os, trials (.record o) = []) →
        a'.performance (.str s) = a.answerUntried (Text.lower language) os) := by
  obtain ⟨os, hos, rfl⟩ := queryDetectors_eq_ok hasked
  obtain ⟨tables, slots, hput, hslots, htries⟩ := validateIn_tries hrun
  rw [hopinions] at hslots
  cases hslots
  have hnil : (os.map Held.record).flatMap trials = [] ↔ ∀ o ∈ os, trials (.record o) = [] := by
    simp [flatMap_eq_nil_iff]
  refine ⟨os, hos, hopinions, ?_, fun hnone => ?_⟩
  · rintro ⟨o, ho, htrial⟩
    obtain ⟨rs, hlength, hrs⟩ := htries.hears
    have hne : rs ≠ [] := by
      rintro rfl
      refine htrial (hnil.mp ?_ o ho)
      rw [← length_eq_zero_iff]
      rw [length_nil] at hlength
      omega
    have hnotes := hrs.notes a [] (Notes.reset hput)
    exact ⟨_, hnotes.performance_eq hne hpower hs⟩
  · rw [hnil.mpr hnone] at htries
    cases htries
    refine performance_of_nothing_tried (fun o ho => ?_) hopinions hpower hput hs
    obtain ⟨pattern, raw, hreported⟩ := reported_of_opinionsOf hos o ho
    exact harmless_of_reported hreported (hnone o ho)

/-- One detector takes the pattern for vulnerable to some inputs. -/
def loneAlarm (inputs : List Value) : List Value :=
  [reportBy "first" (warning "exponential" inputs)]

theorem queryDetectors_loneAlarm (inputs : List Value) (hinputs : ∀ i ∈ inputs, i.FitsAt 5)
    (hos : (loneAlarm inputs).mapM (Opinion.ofReport (.str "(a+)+$")) = .ok os) :
    ∃ t', (queryDetectors .null .null).run nestedQuantifier (printing (loneAlarm inputs)) =
      ((Except.ok (), { nestedQuantifier with opinions := .items (os.map .record) }), t') := by
  refine ⟨_, queryDetectors_printing ?_ hos nestedQuantifier rfl⟩
  rw [loneAlarm, forall_mem_singleton]
  exact fitsAt_reportBy (by decide) _ (fitsAt_warning (by decide) _ hinputs)

/-- The opinion of that detector when its only input cannot be parsed. -/
def unparsedAlarm : Opinion :=
  { pattern := .str "(a+)+$", detectorName := .str "first", canAnalyze := .bool true
    isVuln := .bool true, predicted := .str Complexity.exponential.name
    patternVariant := some (.str "^(a+)+$"), evilInputs := some (.items [.record {}]) }

theorem performance_linear_unparsed :
    ∃ (asked a' : Analysis) (t₁ t' : Tools),
      (queryDetectors .null .null).run nestedQuantifier (printing (loneAlarm [.str "no parts"])) =
        ((Except.ok (), asked), t₁) ∧
      (validateIn (.str "Python")).run asked t₁ = ((Except.ok (), a'), t') ∧
      a'.performance (.str "PYTHON") = .ok .linear := by
  have hread : (loneAlarm [.str "no parts"]).mapM (Opinion.ofReport (.str "(a+)+$")) =
    .ok [unparsedAlarm] := rfl
  obtain ⟨t₁, hasked⟩ := queryDetectors_loneAlarm _ (by simp) hread
  have hrun : (validateIn (.str "Python")).run
      { nestedQuantifier with opinions := .items [.record unparsedAlarm] } t₁ =
        ((Except.ok (), { nestedQuantifier with
          opinions := .items [.record unparsedAlarm]
          timedOutBy := .object [("python", .dict [])] }), t₁) := rfl
  have hpower : nestedQuantifier.powerPumps = .atom (.int manyPumps) := rfl
  have hlower : Text.lower "PYTHON" = Text.lower "Python" := by decide
  obtain ⟨os, -, hopinions, -, huntried⟩ :=
    performance_of_validateIn hasked rfl hpower hrun hlower
  obtain rfl := items_record_injective hopinions
  have hnone : trials (.record unparsedAlarm) = [] := rfl
  exact ⟨_, _, t₁, t₁, hasked, hrun, huntried (forall_mem_singleton.mpr hnone)⟩

/-- A pattern that is taken for vulnerable without a single input has no performance in a language
that was tried for it. -/
theorem performance_error_unfounded :
    ∃ (asked a' : Analysis) (t₁ t' : Tools),
      (queryDetectors .null .null).run nestedQuantifier (printing (loneAlarm [])) =
        ((Except.ok (), asked), t₁) ∧
      (validateIn (.str "python")).run asked t₁ = ((Except.ok (), a'), t') ∧
      a'.performance (.str "python") = .error .outOfRange := by
  obtain ⟨t₁, hasked⟩ := queryDetectors_loneAlarm [] (by simp) rfl
  exact ⟨_, _, t₁, _, hasked, rfl, rfl⟩

end Analysis
end RegexCorpus.SuperLinear
