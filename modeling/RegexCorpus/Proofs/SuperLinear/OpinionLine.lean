import RegexCorpus.Proofs.SuperLinear.Line

/-!
# Opinions on lines

An opinion that was made from a report has a line, unless the detector broke down: then no variant of
the pattern is known, and the line would have to name one. What is read from the line is the opinion
without its prediction, which the line leaves out. Values of any kind in a report come back, doubles
among them.
-/

namespace RegexCorpus
open Json List

variable {room : ℕ}

namespace SuperLinear

theorem EvilInput.Reported.recorded {raw : Value} {i : EvilInput} (h : i.Reported raw)
    (hraw : raw.FitsRoom (room + 2)) : i.Recorded room := by
  cases h with
  | text => exact .text
  | @parts pumped suffix raws ps hpumped hraws hps hsuffix =>
    have hraws := fitsRoom_parts (fitsRoom_get hraw hpumped) hraws
    refine .parts (fun p hp => ?_) ((fitsRoom_get hraw hsuffix).mono (by omega))
    obtain ⟨raw, hraw, hreported⟩ := exists_of_mem_right hps hp
    have hfits := (hraws raw hraw).mono room.le_succ
    exact ⟨fitsRoom_get hfits hreported.lead, fitsRoom_get hfits hreported.pump⟩

namespace Opinion

variable {pattern raw : Value} {o : Opinion}

theorem Reported.namesVariant_iff (h : o.Reported pattern raw) :
    o.NamesVariant ↔ raw.get "opinion" ≠ .ok (.str "INTERNAL-ERROR") := by
  have hother {report : Value} {question : String} {n : Int} {b : Bool}
      (hreport : raw.get "opinion" = .ok report) (h : Answers report question n b) :
      raw.get "opinion" ≠ .ok (.str "INTERNAL-ERROR") := by
    intro hfailed
    obtain ⟨v, hv, -⟩ := h
    cases hfailed.symm.trans hreport
    cases hv
  cases h with
  | timedOut _ hreport => simp [hreport, NamesVariant, Value.holds, Atom.holds]
  | failed _ hreport => simp [hreport, NamesVariant, Value.holds, Atom.holds]
  | unanalysed _ hreport _ hanalysed
  | safe _ hreport _ hanalysed
  | vulnerable _ hreport _ hanalysed => exact iff_of_true (.inr rfl) (hother hreport hanalysed)

theorem Reported.recorded (h : o.Reported pattern raw) (hpattern : pattern.FitsRoom (room + 4))
    (hraw : raw.FitsRoom (room + 5)) : o.Recorded room := by
  cases h with
  | timedOut hname _ => exact .timedOut hpattern (fitsRoom_get hraw hname)
  | failed hname _ => exact .failed hpattern (fitsRoom_get hraw hname)
  | unanalysed hname _ hvariant _ | safe hname _ hvariant _ _ =>
    exact .harmless hpattern (fitsRoom_get hraw hname) (fitsRoom_get hraw hvariant)
  | @vulnerable name variant report suggested predicted raws is hname hreport hvariant _ _ hsuggested
      hraws his =>
    have hraws := fitsRoom_parts (fitsRoom_get (fitsRoom_get hraw hreport) hsuggested) hraws
    refine .vulnerable hpattern (fitsRoom_get hraw hname) (fitsRoom_get hraw hvariant) fun i hi => ?_
    obtain ⟨raw, hraw, hreported⟩ := exists_of_mem_right his hi
    exact hreported.recorded (hraws raw hraw)

theorem forget_eq_self_iff : o.forget = o ↔ o.predicted = .str Complexity.unknown.name := by
  obtain ⟨pattern, detectorName, timedOut, canAnalyze, isVuln, predicted, variant, inputs⟩ := o
  simp [forget, eq_comm]

theorem Reported.read_line (h : o.Reported pattern raw)
    (hpattern : pattern.FitsRoom (nestingLimit - 1)) (hraw : raw.FitsRoom nestingLimit)
    (hnames : o.NamesVariant) :
    ∃ line, o.toLine = .ok line ∧ (read (.str line)).run {} = (.ok (), o.forget) := by
  have hrecorded : o.Recorded (nestingLimit - 5) := h.recorded hpattern hraw
  obtain ⟨ms, hvalue, hfits, hread⟩ := hrecorded.carried (by decide) hnames
  have htext : ofText (render (.object ms)) = .ok (.object ms) :=
    ofText_render_object hfits.isJson hfits.within
  refine ⟨render (.object ms), ?_, ?_⟩
  · rw [toLine, hvalue]
    rfl
  · rw [read, ofLine_str, run_lift_bind htext, Edit.made_eq_ok.mp hread]

/-- An opinion that was made from a report has a line unless the detector broke down. It comes back
from the line without its prediction, so it is as before exactly if nothing was predicted. -/
theorem read_toLine_of_ofReport (hpattern : pattern.FitsRoom (Json.nestingLimit - 1))
    (hraw : raw.FitsRoom Json.nestingLimit) (h : ofReport pattern raw = .ok o) :
    ((∃ line, o.toLine = .ok line) ↔ raw.get "opinion" ≠ .ok (.str "INTERNAL-ERROR")) ∧
    ∀ line, o.toLine = .ok line →
      (read (.str line)).run {} = (Except.ok (), o.forget) ∧
      ((read (.str line)).run {} = (Except.ok (), o) ↔
        o.predicted = .str Complexity.unknown.name) := by
  have hreported := reported_of_ofReport h
  have hnames (line : String) (hline : o.toLine = .ok line) : o.NamesVariant := by
    by_contra hnot
    have hrecorded : o.Recorded (Json.nestingLimit - 5) := hreported.recorded hpattern hraw
    obtain ⟨v, hv, -⟩ := Outcome.bind_eq_ok.mp hline
    exact hrecorded.toValue_ne_ok hnot v hv
  rw [← hreported.namesVariant_iff]
  refine ⟨⟨fun ⟨line, hline⟩ => hnames line hline, fun h => ?_⟩, fun line hline => ?_⟩
  · obtain ⟨line, hline, -⟩ := hreported.read_line hpattern hraw h
    exact ⟨line, hline⟩
  · obtain ⟨line', hline', hback⟩ := hreported.read_line hpattern hraw (hnames line hline)
    cases hline.symm.trans hline'
    refine ⟨hback, ?_⟩
    rw [hback, Prod.mk.injEq, ← forget_eq_self_iff]
    simp

def pumpedInput : Value :=
  .object [("pumpPairs", .list [.object [("prefix", .str ""), ("pump", .str "a")]]),
    ("suffix", .str "!")]

theorem fitsAt_pumpedInput {level : Nat} (hlevel : level + 2 < Json.nestingLimit) :
    pumpedInput.FitsAt level := by
  have hpair : (Value.object [("prefix", .str ""), ("pump", .str "a")]).FitsAt (level + 2) :=
    .object hlevel (by simp) (by simp)
  have hpairs :
      (Value.list [.object [("prefix", .str ""), ("pump", .str "a")]]).FitsAt (level + 1) :=
    .list (by omega) (by simp [hpair])
  exact .object (by omega) (by simp) (by simp [hpairs])

/-- A growth that is not known is not predicted, and the opinion comes back with both its inputs. -/
theorem read_toLine_unknown_growth :
    ∃ o line, ofReport (.str "(a+)+$")
        (reportBy "det" (warning "cubic" [pumpedInput, .str "no parts"])) = .ok o ∧
      o.toLine = .ok line ∧ (read (.str line)).run {} = (Except.ok (), o) := by
  have hpumped : pumpedInput.FitsAt 3 := fitsAt_pumpedInput (by decide)
  have hwarning : (warning "cubic" [pumpedInput, .str "no parts"]).FitsAt 1 :=
    fitsAt_warning (by decide) _ (by simp [hpumped])
  obtain ⟨hiff, hback⟩ := read_toLine_of_ofReport (.str "(a+)+$")
    (fitsAt_reportBy (by decide) "det" hwarning) rfl
  obtain ⟨line, hline⟩ := hiff.mpr fun h => by cases h
  exact ⟨_, line, rfl, hline, (hback line hline).2.mpr rfl⟩

/-- When the detector broke down there is no line, and the opinion that the pattern is safe comes back
without the prediction of linear time. -/
theorem not_read_toLine_of_ofReport :
    (∃ o, ofReport (.str "(a+)+$") (reportBy "det" (.str "INTERNAL-ERROR")) = .ok o ∧
      ∀ line, o.toLine ≠ .ok line) ∧
    ∃ o line, ofReport (.str "(a+)+$") (reportBy "det" allClear) = .ok o ∧
      o.toLine = .ok line ∧ (read (.str line)).run {} ≠ (Except.ok (), o) := by
  refine ⟨⟨_, rfl, fun line hline => by cases hline⟩, ?_⟩
  have hclear : ofReport (.str "(a+)+$") (reportBy "det" allClear) = .ok {
      pattern := .str "(a+)+$", detectorName := .str "det", canAnalyze := .bool true
      predicted := .str Complexity.linear.name, patternVariant := some (.str "^(a+)+$") } := rfl
  have hfits : (reportBy "det" allClear).FitsAt 0 :=
    fitsAt_reportBy (by decide) "det" (fitsAt_allClear (by decide))
  obtain ⟨line, hline, hback⟩ := (reported_of_ofReport hclear).read_line (.str "(a+)+$") hfits
    (.inr rfl)
  refine ⟨_, line, hclear, hline, fun hsame => ?_⟩
  have hpredicted := forget_eq_self_iff.mp (congrArg Prod.snd (hback.symm.trans hsame))
  simp [Complexity.name] at hpredicted

end Opinion
end SuperLinear
end RegexCorpus
