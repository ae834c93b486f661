import RegexCorpus.Proofs.Record.Edit
import RegexCorpus.SuperLinear.Analysis

/-!
# Opinions from reports

A report that is accepted leads to one of five kinds of opinion: the detector ran out of time, broke
down, could not analyse the pattern, takes it for safe, or takes it for vulnerable. Only the last
has inputs to suggest, and each of these is in parts or a text that nobody could parse.
-/

namespace RegexCorpus.SuperLinear
open Outcome List

variable {level : Nat}

theorem Complexity.eq_name_of_ofAtom? {a : Atom} {c : Complexity} (h : ofAtom? a = some c) :
    a = .str c.name := by
  cases a with
  | str s =>
    have hname := find?_some (p := fun d : Complexity => d.name == s) h
    rw [beq_iff_eq] at hname
    rw [hname]
  | _ => cases h

/-! ### Inputs -/

structure PumpPair.Reported (raw : Value) (p : PumpPair) : Prop where
  lead : raw.get "prefix" = .ok p.lead
  pump : raw.get "pump" = .ok p.pump

inductive EvilInput.Reported (raw : Value) : EvilInput → Prop
  | text : Reported raw {}
  | parts {pumped suffix : Value} {raws : List Value} {ps : List PumpPair}
      (hpumped : raw.get "pumpPairs" = .ok pumped) (hraws : pumped.parts = .ok raws)
      (hps : List.Forall₂ PumpPair.Reported raws ps) (hsuffix : raw.get "suffix" = .ok suffix) :
      Reported raw { couldParse := .bool true, pumpPairs := .items (ps.map .record), suffix }

namespace Opinion

variable {raw : Value} {o : Opinion}

theorem reported_of_inputOfReport {i : EvilInput} (h : inputOfReport raw = .ok i) :
    i.Reported raw := by
  unfold inputOfReport at h
  split at h
  · cases h
    exact .text
  · simp only [bind_eq_ok, pure_eq_ok] at h
    obtain ⟨pumped, hpumped, raws, hraws, slots, hslots, suffix, hsuffix, rfl⟩ := h
    have hpairs : List.Forall₂ (fun v slot => ∃ p, PumpPair.Reported v p ∧ Held.record p = slot)
        raws slots := by
      refine (mapM_eq_ok.mp hslots).imp fun v slot hslot => ?_
      simp only [bind_eq_ok, pure_eq_ok] at hslot
      obtain ⟨lead, hlead, pump, hpump, rfl⟩ := hslot
      exact ⟨{ lead, pump }, ⟨hlead, hpump⟩, rfl⟩
    obtain ⟨ps, hps, rfl⟩ := forall₂_exists_map_iff.mp hpairs
    exact .parts hpumped hraws hps hsuffix

/-! ### Kinds of opinion -/

def Answers (report : Value) (question : String) (n : Int) (b : Bool) : Prop :=
  ∃ v, report.get question = .ok v ∧ v.same (.int n) = b

/-- The opinion says what the raw report on the pattern says. -/
inductive Reported (pattern raw : Value) : Opinion → Prop
  | timedOut {name : Value} (hname : raw.get "name" = .ok name)
      (hreport : raw.get "opinion" = .ok (.str "TIMEOUT")) :
      Reported pattern raw { pattern, detectorName := name, timedOut := .bool true }
  | failed {name : Value} (hname : raw.get "name" = .ok name)
      (hreport : raw.get "opinion" = .ok (.str "INTERNAL-ERROR")) :
      Reported pattern raw { pattern, detectorName := name }
  | unanalysed {name variant report : Value} (hname : raw.get "name" = .ok name)
      (hreport : raw.get "opinion" = .ok report)
      (hvariant : raw.get "patternVariant" = .ok variant)
      (hanalysed : Answers report "canAnalyze" 1 false) :
      Reported pattern raw { pattern, detectorName := name, patternVariant := some variant }
  | safe {name variant report : Value} (hname : raw.get "name" = .ok name)
      (hreport : raw.get "opinion" = .ok report)
      (hvariant : raw.get "patternVariant" = .ok variant)
      (hanalysed : Answers report "canAnalyze" 1 true) (hsafe : Answers report "isSafe" 0 false) :
      Reported pattern raw {
        pattern, detectorName := name, canAnalyze := .bool true
        predicted := .str Complexity.linear.name, patternVariant := some variant }
  | vulnerable {name variant report suggested : Value} {predicted : Complexity} {raws : List Value}
      {inputs : List EvilInput} (hname : raw.get "name" = .ok name)
      (hreport : raw.get "opinion" = .ok report)
      (hvariant : raw.get "patternVariant" = .ok variant)
      (hanalysed : Answers report "canAnalyze" 1 true) (hsafe : Answers report "isSafe" 0 true)
      (hsuggested : report.get "evilInput" = .ok suggested) (hraws : suggested.parts = .ok raws)
      (hinputs : List.Forall₂ EvilInput.Reported raws inputs) :
      Reported pattern raw {
        pattern, detectorName := name, canAnalyze := .bool true, isVuln := .bool true
        predicted := .str predicted.name, patternVariant := some variant
        evilInputs := some (.items (inputs.map .record)) }

theorem noteInputs_eq_ok {raws : List Value} {xs : List (Held EvilInput)} {o' : Opinion}
    (ho : o.evilInputs = some (.items xs)) (h : (noteInputs raws).run o = (.ok (), o')) :
    ∃ inputs, List.Forall₂ EvilInput.Reported raws inputs ∧
      o' = { o with evilInputs := some (.items (xs ++ inputs.map .record)) } := by
  induction raws generalizing o xs with
  | nil =>
    cases h
    refine ⟨[], .nil, ?_⟩
    rw [map_nil, append_nil, ← ho]
  | cons raw raws ih =>
    rw [noteInputs] at h
    obtain ⟨input, hinput, h⟩ := run_lift_bind_eq_ok.mp h
    rw [run_modify_bind] at h
    rw [ho] at h
    obtain ⟨inputs, hinputs, rfl⟩ := ih rfl h
    exact ⟨input :: inputs, .cons (reported_of_inputOfReport hinput) hinputs, by simp⟩

theorem notePrediction_eq_ok {report : Value} {o' : Opinion}
    (ho : o.predicted = .str Complexity.unknown.name)
    (h : (notePrediction report).run o = (.ok (), o')) :
    ∃ c : Complexity, o' = { o with predicted := .str c.name } := by
  unfold notePrediction at h
  obtain ⟨named, -, h⟩ := run_lift_bind_eq_ok.mp h
  cases named with
  | false =>
    cases h
    exact ⟨.unknown, rfl⟩
  | true =>
    rw [if_pos rfl] at h
    obtain ⟨name, -, h⟩ := run_lift_bind_eq_ok.mp h
    obtain ⟨key, hkey, h⟩ := run_lift_bind_eq_ok.mp h
    cases hc : Complexity.ofAtom? key with
    | none =>
      -- a name outside the table is passed over, and the opinion keeps what it had
      rw [hc] at h
      cases h
      exact ⟨.unknown, by rw [← ho]⟩
    | some c =>
      rw [hc] at h
      cases h
      refine ⟨c, ?_⟩
      cases name with
      | atom a =>
        cases hkey
        rw [Complexity.eq_name_of_ofAtom? hc]
      | _ => cases hkey

theorem reported_of_noteReport {pattern name report : Value} (hname : raw.get "name" = .ok name)
    (hreport : raw.get "opinion" = .ok report)
    (h : (noteReport raw report).run { pattern, detectorName := name } = (.ok (), o)) :
    Reported pattern raw o := by
  unfold noteReport at h
  obtain ⟨_, _, hset, h⟩ := run_bind_eq_ok.mp h
  obtain ⟨variant, hvariant, hset⟩ := setFields_cons_eq_ok.mp hset
  cases hset
  obtain ⟨canAnalyze, hcan, h⟩ := run_lift_bind_eq_ok.mp h
  rw [run_modify_bind] at h
  cases hanalysed : canAnalyze.same (.int 1) with
  | false =>
    rw [hanalysed] at h
    cases h
    exact .unanalysed hname hreport hvariant ⟨_, hcan, hanalysed⟩
  | true =>
    rw [hanalysed, if_pos rfl] at h
    obtain ⟨isSafe, hsafe, h⟩ := run_lift_bind_eq_ok.mp h
    rw [run_modify_bind] at h
    cases hvuln : isSafe.same (.int 0) with
    | false =>
      rw [hvuln] at h
      cases h
      exact .safe hname hreport hvariant ⟨_, hcan, hanalysed⟩ ⟨_, hsafe, hvuln⟩
    | true =>
      rw [hvuln, if_pos rfl] at h
      obtain ⟨_, _, hpredict, h⟩ := run_bind_eq_ok.mp h
      obtain ⟨c, rfl⟩ := notePrediction_eq_ok rfl hpredict
      rw [run_modify_bind] at h
      obtain ⟨raws, hraws, h⟩ := run_lift_bind_eq_ok.mp h
      obtain ⟨suggested, hsuggested, hraws⟩ := bind_eq_ok.mp hraws
      obtain ⟨inputs, hinputs, rfl⟩ := noteInputs_eq_ok rfl h
      exact .vulnerable hname hreport hvariant ⟨_, hcan, hanalysed⟩ ⟨_, hsafe, hvuln⟩ hsuggested
        hraws hinputs

theorem reported_of_ofReport {pattern : Value} (h : ofReport pattern raw = .ok o) :
    Reported pattern raw o := by
  have hrun : (readReport pattern raw).run {} = (.ok (), o) := Edit.made_eq_ok.mp h
  unfold readReport at hrun
  rw [run_modify_bind] at hrun
  obtain ⟨_, _, hset, hrun⟩ := run_bind_eq_ok.mp hrun
  obtain ⟨name, hname, hset⟩ := setFields_cons_eq_ok.mp hset
  cases hset
  obtain ⟨report, hreport, hrun⟩ := run_lift_bind_eq_ok.mp hrun
  by_cases htimeout : report.same (.str "TIMEOUT") = true
  · rw [if_pos htimeout] at hrun
    cases hrun
    exact .timedOut hname (Value.same_str.mp htimeout ▸ hreport)
  · rw [if_neg htimeout] at hrun
    by_cases hfailed : report.same (.str "INTERNAL-ERROR") = true
    · rw [if_pos hfailed] at hrun
      cases hrun
      exact .failed hname (Value.same_str.mp hfailed ▸ hreport)
    · rw [if_neg hfailed] at hrun
      exact reported_of_noteReport hname hreport hrun

end Opinion

theorem Analysis.reported_of_opinionsOf {output : String} {os : List Opinion}
    (h : opinionsOf output = .ok os) : ∀ o ∈ os, ∃ pattern raw, o.Reported pattern raw := by
  simp only [opinionsOf, bind_eq_ok] at h
  obtain ⟨obj, -, found, -, raws, -, hos⟩ := h
  rw [mapM_eq_ok] at hos
  intro o ho
  obtain ⟨raw, -, hraw⟩ := exists_of_mem_right hos ho
  obtain ⟨pattern, -, hreport⟩ := bind_eq_ok.mp hraw
  exact ⟨pattern, raw, Opinion.reported_of_ofReport hreport⟩

/-! ### Reports on a nested quantifier -/

def reportBy (detector : String) (opinion : Value) : Value :=
  .object [("name", .str detector), ("patternVariant", .str "^(a+)+$"), ("opinion", opinion)]

def allClear : Value := .object [("canAnalyze", .int 1), ("isSafe", .int 1)]

/-- The pattern is vulnerable to some inputs, with the named growth. -/
def warning (growth : String) (inputs : List Value) : Value :=
  .object [("canAnalyze", .int 1), ("isSafe", .int 0), ("predictedComplexity", .str growth),
    ("evilInput", .list inputs)]

def printout (reports : List Value) : Value :=
  .object [("pattern", .str "(a+)+$"), ("detectorOpinions", .list reports)]

theorem fitsAt_reportBy (hlevel : level < Json.nestingLimit) (detector : String) {opinion : Value}
    (h : opinion.FitsAt (level + 1)) : (reportBy detector opinion).FitsAt level :=
  .object hlevel (by simp) (by simp [h])

theorem fitsAt_allClear (hlevel : level < Json.nestingLimit) : allClear.FitsAt level :=
  .object hlevel (by simp) (by simp [Value.short_digit])

theorem fitsAt_warning (hlevel : level + 1 < Json.nestingLimit) (growth : String)
    {inputs : List Value} (h : ∀ i ∈ inputs, i.FitsAt (level + 2)) :
    (warning growth inputs).FitsAt level := by
  have hinputs : (Value.list inputs).FitsAt (level + 1) := .list hlevel h
  exact .object (by omega) (by simp) (by simp [Value.short_digit, hinputs])

theorem opinionsOf_printout {reports : List Value} (h : ∀ r ∈ reports, r.FitsAt 2) :
    Analysis.opinionsOf (Text.trim (Json.render (printout reports))) =
      reports.mapM (Opinion.ofReport (.str "(a+)+$")) := by
  have hreports : (Value.list reports).FitsAt 1 := .list (by decide) h
  have hfits : (printout reports).FitsAt 0 :=
    .object (by decide) (by simp) (by simp [hreports])
  have htrim : Text.trim ("" ++ Json.render (printout reports) ++ "") =
    Json.render (printout reports) := Json.trim_render _ "" "" (by simp) (by simp)
  rw [String.empty_append, String.append_empty] at htrim
  have hlimit : Value.Within Json.nestingLimit (printout reports) := hfits.2
  rw [htrim, Analysis.opinionsOf, Json.parse_render hfits.1 hlimit]
  rfl

end RegexCorpus.SuperLinear
