import RegexCorpus.Proofs.SuperLinear.Detector
import RegexCorpus.Proofs.SuperLinear.Opinion

/-!
# The worst prediction

Every opinion that comes from a report predicts one of the complexities, so the worst prediction is
always found: the one that ranks highest, whatever the order of the opinions and however often each
of them is there. As `unknown` ranks below `linear`, an opinion that takes the pattern for
vulnerable and knows no complexity gives way to one that takes it for safe.
-/

namespace RegexCorpus.SuperLinear
open List

namespace Complexity

theorem rank_injective : Function.Injective rank := by
  intro c d h
  cases c <;> cases d <;> simp [rank] at h ⊢

theorem eq_unknown_of_rank_le {c : Complexity} (h : c.rank ≤ unknown.rank) : c = unknown := by
  cases c <;> simp [rank] at h ⊢

theorem name_injective : Function.Injective name := by
  intro c d h
  cases c <;> cases d <;> simp [name] at h ⊢

end Complexity

namespace Opinion

variable {o : Opinion} {c d : Complexity}

def Predicts (o : Opinion) (c : Complexity) : Prop := o.predicted = .str c.name

theorem Predicts.unique (h : o.Predicts c) (h' : o.Predicts d) : c = d := by
  have hname : Value.str c.name = .str d.name := h.symm.trans h'
  simpa [Complexity.name_injective.eq_iff] using hname

/-- The opinion takes the pattern for vulnerable. -/
def IsAlarm (o : Opinion) : Prop := o.isVuln = .bool true

/-- The opinion takes the pattern for safe. -/
def IsAllClear (o : Opinion) : Prop := o.canAnalyze = .bool true ∧ o.isVuln = .bool false

section
variable {pattern raw : Value}

theorem Reported.exists_predicts (h : o.Reported pattern raw) : ∃ c, o.Predicts c := by
  cases h with
  | timedOut | failed | unanalysed => exact ⟨.unknown, rfl⟩
  | safe => exact ⟨.linear, rfl⟩
  | @vulnerable _ _ _ _ predicted => exact ⟨predicted, rfl⟩

/-- Without an alarm nothing worse than linear time is predicted, and that only for a safe
pattern. -/
theorem Reported.alarm_or (h : o.Reported pattern raw) :
    o.IsAlarm ∨ o.IsAllClear ∧ o.Predicts .linear ∨ ¬o.IsAllClear ∧ o.Predicts .unknown := by
  cases h with
  | timedOut | failed | unanalysed => exact .inr (.inr ⟨by simp [IsAllClear], rfl⟩)
  | safe => exact .inr (.inl ⟨⟨rfl, rfl⟩, rfl⟩)
  | vulnerable => exact .inl rfl

end
end Opinion

namespace Analysis

variable {os : List Opinion} {c d : Complexity}

/-- The worst prediction among opinions: the one that ranks highest, or `unknown` if there are no
opinions. -/
structure IsWorst (os : List Opinion) (c : Complexity) : Prop where
  attained : os = [] ∧ c = .unknown ∨ ∃ o ∈ os, o.Predicts c
  highest : ∀ o ∈ os, ∀ d, o.Predicts d → d.rank ≤ c.rank

namespace IsWorst

theorem unique (h : IsWorst os c) (h' : IsWorst os d) : c = d := by
  have hle {c d : Complexity} (h : IsWorst os c) (h' : IsWorst os d) : c.rank ≤ d.rank := by
    rcases h.attained with ⟨-, rfl⟩ | ⟨o, ho, hc⟩
    · exact Nat.zero_le _
    · exact h'.highest o ho c hc
  exact Complexity.rank_injective (le_antisymm (hle h h') (hle h' h))

/-- Neither the order of the opinions nor their number has a part in it. -/
theorem congr {os' : List Opinion} (hos : ∀ o, o ∈ os' ↔ o ∈ os) (h : IsWorst os c) :
    IsWorst os' c where
  attained := by
    rcases h.attained with ⟨rfl, hc⟩ | ⟨o, ho, hc⟩
    · exact .inl ⟨eq_nil_iff_forall_not_mem.mpr fun o ho => by simpa using (hos o).mp ho, hc⟩
    · exact .inr ⟨o, (hos o).mpr ho, hc⟩
  highest o ho := h.highest o ((hos o).mp ho)

theorem eq_unknown_iff (hos : ∀ o ∈ os, ∃ d, o.Predicts d) (h : IsWorst os c) :
    c = .unknown ↔ ∀ o ∈ os, o.Predicts .unknown := by
  constructor
  · rintro rfl o ho
    obtain ⟨d, hd⟩ := hos o ho
    rwa [← Complexity.eq_unknown_of_rank_le (h.highest o ho d hd)]
  · intro hunknown
    rcases h.attained with ⟨-, hc⟩ | ⟨o, ho, hc⟩
    · exact hc
    · exact hc.unique (hunknown o ho)

theorem eq_linear_iff (h : IsWorst os c) :
    c = .linear ↔ (∃ o ∈ os, o.Predicts .linear) ∧
      ∀ o ∈ os, ∀ d, o.Predicts d → d = .unknown ∨ d = .linear := by
  constructor
  · rintro rfl
    refine ⟨h.attained.resolve_left (by simp), fun o ho d hd => ?_⟩
    have hrank := h.highest o ho d hd
    cases d <;> simp [Complexity.rank] at hrank ⊢
  · rintro ⟨⟨o, ho, hlinear⟩, hbest⟩
    have hrank := h.highest o ho _ hlinear
    rcases h.attained with ⟨rfl, -⟩ | ⟨o', ho', hc⟩
    · simp at ho
    · rcases hbest o' ho' c hc with rfl | rfl
      · simp [Complexity.rank] at hrank
      · rfl

end IsWorst

theorem worse_name (c d : Complexity) :
    worse c (.str d.name) = .ok (if c.rank < d.rank then d else c) := by
  cases d <;> rfl

/-- Going through the predictions, the analysis keeps the highest so far. -/
theorem foldlM_worse (hos : ∀ o ∈ os, ∃ d, o.Predicts d) (c : Complexity) :
    ∃ w, (os.map Opinion.predicted).foldlM worse c = .ok w ∧ (w = c ∨ ∃ o ∈ os, o.Predicts w) ∧
      c.rank ≤ w.rank ∧ ∀ o ∈ os, ∀ d, o.Predicts d → d.rank ≤ w.rank := by
  induction os generalizing c with
  | nil => exact ⟨c, rfl, .inl rfl, le_rfl, by simp⟩
  | cons o os ih =>
    rw [forall_mem_cons] at hos
    obtain ⟨⟨d, hd⟩, hos⟩ := hos
    obtain ⟨w, hw, hattained, hrank, hhighest⟩ := ih hos (if c.rank < d.rank then d else c)
    have hd' : o.predicted = .str d.name := hd
    refine ⟨w, ?_, ?_, ?_, ?_⟩
    · rw [map_cons, foldlM_cons, hd', worse_name, Outcome.ok_bind, hw]
    · rcases hattained with rfl | ⟨o', ho', hw'⟩
      · split
        · exact .inr ⟨o, by simp, hd⟩
        · exact .inl rfl
      · exact .inr ⟨o', by simp [ho'], hw'⟩
    · split at hrank <;> omega
    · rw [forall_mem_cons]
      refine ⟨fun e he => ?_, hhighest⟩
      rw [he.unique hd]
      split at hrank <;> omega

theorem exists_isWorst {a : Analysis} (hopinions : a.opinions = .items (os.map .record))
    (hos : ∀ o ∈ os, ∃ d, o.Predicts d) : ∃ w, a.worstPrediction = .ok w ∧ IsWorst os w := by
  have hnamed : ((os.map Held.record).mapM fun o : Held Opinion => do
      return (← o.get).predicted) = .ok (os.map Opinion.predicted) := by
    rw [mapM_eq_ok, forall₂_map_left_iff, forall₂_map_right_iff, forall₂_same]
    exact fun o _ => rfl
  obtain ⟨w, hw, hattained, -, hhighest⟩ := foldlM_worse hos .unknown
  refine ⟨w, ?_, ?_, hhighest⟩
  · rw [worstPrediction, hopinions, Records.parts, Outcome.ok_bind, hnamed, Outcome.ok_bind, hw]
  · rcases hattained with rfl | ho
    · cases os with
      | nil => exact .inl ⟨rfl, rfl⟩
      | cons o os =>
        -- the first opinion predicts something, and that cannot be more than `unknown`
        obtain ⟨d, hd⟩ := hos o (by simp)
        obtain rfl := Complexity.eq_unknown_of_rank_le (hhighest o (by simp) d hd)
        exact .inr ⟨o, by simp, hd⟩
    · exact .inr ho

/-! ### Detectors that were asked -/

theorem predicts_of_opinionsOf {output : String} (h : opinionsOf output = .ok os) :
    ∀ o ∈ os, ∃ c, o.Predicts c := by
  intro o ho
  obtain ⟨pattern, raw, hreported⟩ := reported_of_opinionsOf h o ho
  exact hreported.exists_predicts

def printing (reports : List Value) : Tools :=
  { replies := [{ output := Json.render (printout reports) }] }

theorem queryDetectors_printing {reports : List Value} {os : List Opinion}
    (hfits : ∀ r ∈ reports, r.FitsAt 2)
    (hos : reports.mapM (Opinion.ofReport (.str "(a+)+$")) = .ok os) (a : Analysis)
    {query : String} (hquery : a.detectorQuery .null .null = .ok query) :
    (queryDetectors .null .null).run a (printing reports) =
      ((.ok (), { a with opinions := .items (os.map .record) }), { queries := [query] }) := by
  have hcode : (nextReply (printing reports)).code = 0 := rfl
  have houtput : (nextReply (printing reports)).output = Json.render (printout reports) := rfl
  have hread : opinionsOf (Text.trim (nextReply (printing reports)).output) = .ok os := by
    rw [houtput, opinionsOf_printout hfits, hos]
  rw [queryDetectors_run hquery, takeUp_run hcode hread]
  rfl

/-- A nested quantifier that no detector has seen yet. -/
def nestedQuantifier : Analysis := { regex := .record (.bare (.str "(a+)+$")) }

/-- Whenever the detectors were asked with success, every opinion predicts a complexity, and the
analysis finds the worst of them. It would find the same if the opinions came in another order, or
some of them more than once. -/
theorem worstPrediction_of_queryDetectors {detectors variants : Value} {a asked : Analysis}
    {t t' : Tools}
    (hrun : (queryDetectors detectors variants).run a t = ((Except.ok (), asked), t')) :
    ∃ os w, opinionsOf (Text.trim (nextReply t).output) = .ok os ∧
      asked.opinions = .items (os.map .record) ∧ (∀ o ∈ os, ∃ c, o.Predicts c) ∧
      asked.worstPrediction = .ok w ∧ IsWorst os w ∧
      ∀ os' : List Opinion, (∀ o, o ∈ os' ↔ o ∈ os) →
        ({ asked with opinions := .items (os'.map .record) } : Analysis).worstPrediction =
          .ok w := by
  obtain ⟨os, hos, rfl⟩ := queryDetectors_eq_ok hrun
  have hpredicts := predicts_of_opinionsOf hos
  obtain ⟨w, hw, hworst⟩ := exists_isWorst (a := { a with opinions := .items (os.map .record) })
    rfl hpredicts
  refine ⟨os, w, hos, rfl, hpredicts, hw, hworst, fun os' hos' => ?_⟩
  obtain ⟨w', hw', hworst'⟩ := exists_isWorst (a := { a with opinions := .items (os'.map .record) })
    rfl fun o ho => hpredicts o ((hos' o).mp ho)
  rwa [(hworst.congr hos').unique hworst']

/-- One detector takes the pattern for safe, one expects exponential time, and one names a growth
that is not known. -/
def threeReports : List Value :=
  [reportBy "first" allClear, reportBy "second" (warning "exponential" [.str "no parts"]),
    reportBy "third" (warning "cubic" [])]

theorem fitsAt_threeReports : ∀ r ∈ threeReports, r.FitsAt 2 := by
  simp only [threeReports, forall_mem_cons, not_mem_nil, false_imp_iff, implies_true, and_true]
  exact ⟨fitsAt_reportBy (by decide) _ (fitsAt_allClear (by decide)),
    fitsAt_reportBy (by decide) _ (fitsAt_warning (by decide) _ (by simp)),
    fitsAt_reportBy (by decide) _ (fitsAt_warning (by decide) _ (by simp))⟩

theorem worstPrediction_of_threeReports :
    ∃ (asked : Analysis) (t' : Tools) (os : List Opinion),
      (queryDetectors .null .null).run nestedQuantifier (printing threeReports) =
        ((Except.ok (), asked), t') ∧ asked.opinions = .items (os.map .record) ∧
      ∀ os' : List Opinion, (∀ o, o ∈ os' ↔ o ∈ os) →
        ({ asked with opinions := .items (os'.map .record) } : Analysis).worstPrediction =
          .ok .exponential := by
  have hrun := queryDetectors_printing fitsAt_threeReports rfl nestedQuantifier rfl
  obtain ⟨os, w, -, hopinions, -, hw, -, hsame⟩ := worstPrediction_of_queryDetectors hrun
  have hworst : (Except.ok Complexity.exponential : Outcome Complexity) = .ok w := hw
  cases hworst
  exact ⟨_, _, os, hrun, hopinions, hsame⟩

/-- The worst prediction is linear exactly if some opinion takes the pattern for safe, or for
vulnerable in linear time, and no opinion names more than linear time for a pattern that it takes
for vulnerable. -/
theorem worstPrediction_eq_linear_iff {detectors variants : Value} {a asked : Analysis}
    {t t' : Tools}
    (hrun : (queryDetectors detectors variants).run a t = ((Except.ok (), asked), t')) :
    ∃ os w, opinionsOf (Text.trim (nextReply t).output) = .ok os ∧
      asked.opinions = .items (os.map .record) ∧ asked.worstPrediction = .ok w ∧
      (w = .linear ↔ (∃ o ∈ os, o.IsAllClear ∨ o.IsAlarm ∧ o.Predicts .linear) ∧
        ∀ o ∈ os, o.IsAlarm → o.Predicts .unknown ∨ o.Predicts .linear) := by
  obtain ⟨os, hos, rfl⟩ := queryDetectors_eq_ok hrun
  have hreported := reported_of_opinionsOf hos
  have hpredicts := predicts_of_opinionsOf hos
  obtain ⟨w, hw, hworst⟩ := exists_isWorst (a := { a with opinions := .items (os.map .record) })
    rfl hpredicts
  refine ⟨os, w, hos, rfl, hw, ?_⟩
  rw [hworst.eq_linear_iff]
  constructor
  · rintro ⟨⟨o, ho, hlinear⟩, hbest⟩
    obtain ⟨pattern, raw, hreport⟩ := hreported o ho
    refine ⟨⟨o, ho, ?_⟩, fun o ho _ => ?_⟩
    · rcases hreport.alarm_or with halarm | ⟨hclear, -⟩ | ⟨-, hunknown⟩
      · exact .inr ⟨halarm, hlinear⟩
      · exact .inl hclear
      · cases hlinear.unique hunknown
    · obtain ⟨d, hd⟩ := hpredicts o ho
      rcases hbest o ho d hd with rfl | rfl
      · exact .inl hd
      · exact .inr hd
  · rintro ⟨⟨o, ho, hsafe⟩, halarms⟩
    obtain ⟨pattern, raw, hreport⟩ := hreported o ho
    refine ⟨⟨o, ho, ?_⟩, fun o ho d hd => ?_⟩
    · rcases hsafe with hclear | ⟨-, hlinear⟩
      · rcases hreport.alarm_or with halarm | ⟨-, hlinear⟩ | ⟨hnot, -⟩
        · cases halarm.symm.trans hclear.2
        · exact hlinear
        · exact absurd hclear hnot
      · exact hlinear
    · obtain ⟨pattern, raw, hreport⟩ := hreported o ho
      rcases hreport.alarm_or with halarm | ⟨-, hlinear⟩ | ⟨-, hunknown⟩
      · exact (halarms o ho halarm).imp hd.unique hd.unique
      · exact .inr (hd.unique hlinear)
      · exact .inl (hd.unique hunknown)

/-- One detector takes the pattern for safe, and one for vulnerable with the named growth. -/
def opposedReports (growth : String) : List Value :=
  [reportBy "first" allClear, reportBy "second" (warning growth [.str "no parts"])]

theorem queryDetectors_opposedReports (growth : String) {os : List Opinion}
    (hos : (opposedReports growth).mapM (Opinion.ofReport (.str "(a+)+$")) = .ok os) :
    ∃ t', (queryDetectors .null .null).run nestedQuantifier (printing (opposedReports growth)) =
      ((.ok (), { nestedQuantifier with opinions := .items (os.map .record) }), t') := by
  refine ⟨_, queryDetectors_printing ?_ hos nestedQuantifier rfl⟩
  simp only [opposedReports, forall_mem_cons, not_mem_nil, false_imp_iff, implies_true, and_true]
  exact ⟨fitsAt_reportBy (by decide) _ (fitsAt_allClear (by decide)),
    fitsAt_reportBy (by decide) _ (fitsAt_warning (by decide) _ (by simp))⟩

theorem worstPrediction_ne_linear_opposed :
    ∃ (asked : Analysis) (t' : Tools) (w : Complexity),
      (queryDetectors .null .null).run nestedQuantifier (printing (opposedReports "polynomial")) =
        ((Except.ok (), asked), t') ∧ asked.worstPrediction = .ok w ∧ w ≠ .linear := by
  obtain ⟨t', hrun⟩ := queryDetectors_opposedReports "polynomial" rfl
  obtain ⟨os, w, -, hopinions, hw, hiff⟩ := worstPrediction_eq_linear_iff hrun
  refine ⟨_, t', w, hrun, hw, fun hlinear => ?_⟩
  obtain rfl := items_record_injective hopinions
  have halarm := (hiff.mp hlinear).2 _ (mem_cons_of_mem _ mem_cons_self) rfl
  simp [Opinion.Predicts, Complexity.name] at halarm

/-- Where the growth is not known, the pattern is predicted to take linear time, although one
detector takes it for vulnerable. -/
theorem worstPrediction_linear_despite_alarm :
    ∃ (asked : Analysis) (t' : Tools) (os : List Opinion),
      (queryDetectors .null .null).run nestedQuantifier (printing (opposedReports "cubic")) =
        ((Except.ok (), asked), t') ∧ asked.opinions = .items (os.map .record) ∧
      (∃ o ∈ os, o.IsAlarm) ∧ asked.worstPrediction = .ok .linear := by
  obtain ⟨t', hrun⟩ := queryDetectors_opposedReports "cubic" rfl
  exact ⟨_, t', _, hrun, rfl, ⟨_, mem_cons_of_mem _ mem_cons_self, rfl⟩, rfl⟩

end Analysis
end RegexCorpus.SuperLinear
