import RegexCorpus.Proofs.Record.Regex
import RegexCorpus.Proofs.SuperLinear.Prediction
import RegexCorpus.Proofs.SuperLinear.Table

/-!
# Analyses on lines

The parts of an analysis are written as objects inside objects, and each comes back from its object:
pump pairs, inputs, opinions without their predictions, the pattern. The tables of pump counts come
last, and reading them ends in a fault as soon as one of them has any counts.
-/

namespace RegexCorpus
open List Outcome Json Value

/-! ### Records inside records -/

theorem reread_of_fitsRoom {room : ℕ} (hroom : room ≤ nestingLimit) {v : Value}
    (h : v.FitsRoom room) : reread v = .ok v :=
  parse_render h.isJson (h.within.mono hroom)

/-- A record is written as an object for which there is room, and comes back from the object. -/
def Carried {α : Type} (toValue : α → Outcome Value) (ofObject : Value → Outcome α) (room : ℕ)
    (x y : α) : Prop :=
  ∃ ms, toValue x = .ok (.object ms) ∧ FitsRoom room (.object ms) ∧ ofObject (.object ms) = .ok y

/-- Records that come back from their objects do so in a list as well. -/
theorem Carried.list {α : Type} {toValue : α → Outcome Value} {ofObject : Value → Outcome α}
    {room : ℕ} {xs ys : List α} (hroom : room ≤ nestingLimit)
    (h : List.Forall₂ (Carried toValue ofObject room) xs ys) :
    ∃ vs, ((xs.map Held.record).mapM fun x => do reread (← toValue (← x.get))) = .ok vs ∧
      FitsRoom (room + 1) (list vs) ∧ vs.mapM ofObject = .ok ys := by
  have hvalues : ∃ vs, List.Forall₂ (fun x v => toValue x = .ok v ∧ v.FitsRoom room) xs vs ∧
      List.Forall₂ (fun v y => ofObject v = .ok y) vs ys := by
    induction h with
    | nil => exact ⟨[], .nil, .nil⟩
    | cons hhead _ ih =>
      obtain ⟨ms, hwrite, hfits, hread⟩ := hhead
      obtain ⟨vs, hvs, hys⟩ := ih
      exact ⟨_, .cons ⟨hwrite, hfits⟩ hvs, .cons hread hys⟩
  obtain ⟨vs, hvs, hys⟩ := hvalues
  refine ⟨vs, ?_, fitsRoom_list fun v hv => ?_, mapM_eq_ok.mpr hys⟩
  · rw [mapM_eq_ok, forall₂_map_left_iff]
    refine hvs.imp fun x v hv => ?_
    change (do reread (← toValue x)) = _
    rw [hv.1, ok_bind, reread_of_fitsRoom hroom hv.2]
  · obtain ⟨x, -, -, hfits⟩ := exists_of_mem_right hvs hv
    exact hfits

namespace SuperLinear

variable {room : ℕ}

theorem PumpPair.carried {p : PumpPair} (hlead : p.lead.FitsRoom room)
    (hpump : p.pump.FitsRoom room) :
    Carried (fun p : PumpPair => .ok p.toValue) ofObject (room + 1) p p :=
  ⟨_, rfl, fitsRoom_object (by simp) (by simp [hlead, hpump]), rfl⟩

namespace EvilInput

/-- The object of an input that could be parsed. -/
def objectOf (pairs : List Value) (suffix : Value) : Value :=
  .object [("couldParse", .bool true), ("pumpPairs", .list pairs), ("suffix", suffix)]

theorem ofObject_objectOf {pairs : List Value} {ps : List PumpPair}
    (h : pairs.mapM PumpPair.ofObject = .ok ps) (suffix : Value) :
    ofObject (objectOf pairs suffix) =
      .ok { couldParse := .bool true, pumpPairs := .items (ps.map .record), suffix } := by
  have hpairs : (do
      (← (← (objectOf pairs suffix).get "pumpPairs").parts).mapM PumpPair.ofObject) = .ok ps := h
  have hrun : (readObject (objectOf pairs suffix)).run {} = (.ok (),
      { couldParse := .bool true, pumpPairs := .items (ps.map .record), suffix }) := by
    rw [readObject, setFields_cons_bind _ (v := .bool true) rfl, setFields_nil_bind]
    have hparse : (bool true).holds = true := rfl
    rw [run_get_state_bind, if_pos hparse, run_lift_bind hpairs, run_modify_bind,
      setFields_cons_run (v := suffix) rfl]
    rfl
  exact Edit.made_eq_ok.mpr hrun

theorem toValue_parts {ps : List PumpPair} {pairs : List Value}
    (h : ((ps.map Held.record).mapM fun p : Held PumpPair => do reread (← p.get).toValue) =
      .ok pairs) (suffix : Value) :
    toValue { couldParse := .bool true, pumpPairs := .items (ps.map .record), suffix } =
      .ok (objectOf pairs suffix) :=
  congrArg (· >>= fun pairs => pure (objectOf pairs suffix)) h

/-- An input as a detector suggests it, where its pairs have this much room: in parts, or as a text
that could not be parsed. -/
inductive Recorded (room : ℕ) : EvilInput → Prop
  | parts {ps : List PumpPair} {suffix : Value}
      (hps : ∀ p ∈ ps, p.lead.FitsRoom room ∧ p.pump.FitsRoom room)
      (hsuffix : suffix.FitsRoom (room + 2)) :
      Recorded room { couldParse := .bool true, pumpPairs := .items (ps.map .record), suffix }
  | text : Recorded room {}

theorem Recorded.carried {i : EvilInput} (hroom : room < nestingLimit) (h : i.Recorded room) :
    Carried toValue ofObject (room + 3) i i := by
  cases h with
  | @parts ps suffix hps hsuffix =>
    have hcarried : List.Forall₂
        (Carried (fun p : PumpPair => .ok p.toValue) PumpPair.ofObject (room + 1)) ps ps :=
      forall₂_same.mpr fun p hp => PumpPair.carried (hps p hp).1 (hps p hp).2
    obtain ⟨pairs, hwrite, hfits, hread⟩ := Carried.list hroom hcarried
    exact ⟨_, toValue_parts hwrite suffix,
      fitsRoom_object (by simp) (by simp [hfits, hsuffix]), ofObject_objectOf hread suffix⟩
  | text =>
    exact ⟨[("couldParse", .bool false)], rfl, fitsRoom_object (by simp) (by simp), rfl⟩

end EvilInput

namespace Opinion

variable {o : Opinion}

/-- The object of an opinion that takes the pattern for vulnerable. -/
def objectOf (detectorName pattern variant : Value) (inputs : List Value) : Value :=
  .object [("detectorName", detectorName), ("pattern", pattern), ("canAnalyze", .bool true),
    ("timedOut", .bool false), ("isVuln", .bool true), ("patternVariant", variant),
    ("evilInputs", .list inputs)]

theorem ofObject_objectOf {inputs : List Value} {is : List EvilInput}
    (h : inputs.mapM EvilInput.ofObject = .ok is) (detectorName pattern variant : Value) :
    ofObject (objectOf detectorName pattern variant inputs) = .ok {
      pattern, detectorName, canAnalyze := .bool true, isVuln := .bool true
      patternVariant := some variant, evilInputs := some (.items (is.map .record)) } := by
  have hinputs : (do
      (← (← (objectOf detectorName pattern variant inputs).get "evilInputs").parts).mapM
        EvilInput.ofObject) = .ok is := h
  have hrun : (readObject (objectOf detectorName pattern variant inputs)).run {} = (.ok (), {
      pattern, detectorName, canAnalyze := .bool true, isVuln := .bool true
      patternVariant := some variant, evilInputs := some (.items (is.map .record)) }) := by
    rw [readObject, setFields_cons_bind _ (v := detectorName) rfl,
      setFields_cons_bind _ (v := pattern) rfl, setFields_cons_bind _ (v := .bool true) rfl,
      setFields_cons_bind _ (v := .bool false) rfl, setFields_cons_bind _ (v := .bool true) rfl,
      setFields_nil_bind]
    dsimp only
    have htime : (!(bool false).holds) = true := rfl
    have hvuln : (bool true).holds = true := rfl
    rw [run_get_state_bind, if_pos htime, setFields_cons_bind _ (v := variant) rfl,
      setFields_nil_bind, run_get_state_bind, if_pos hvuln, run_lift_bind hinputs]
    rfl
  exact Edit.made_eq_ok.mpr hrun

theorem toValue_vulnerable {is : List EvilInput} {inputs : List Value}
    (h : ((is.map Held.record).mapM fun i : Held EvilInput => do reread (← (← i.get).toValue)) =
      .ok inputs) (detectorName pattern variant predicted : Value) :
    toValue {
        pattern, detectorName, canAnalyze := .bool true, isVuln := .bool true, predicted
        patternVariant := some variant, evilInputs := some (.items (is.map .record)) } =
      .ok (objectOf detectorName pattern variant inputs) :=
  congrArg (· >>= fun inputs => pure (objectOf detectorName pattern variant inputs)) h

/-- An opinion as a detector's report gives it, where the pairs of its inputs have this much room. The
detector ran out of time, or broke down, or came to a result; in the last case it may think the
pattern vulnerable. -/
inductive Recorded (room : ℕ) : Opinion → Prop
  | timedOut {pattern detectorName : Value} (hpattern : pattern.FitsRoom (room + 4))
      (hname : detectorName.FitsRoom (room + 4)) :
      Recorded room { pattern, detectorName, timedOut := .bool true }
  | failed {pattern detectorName : Value} (hpattern : pattern.FitsRoom (room + 4))
      (hname : detectorName.FitsRoom (room + 4)) :
      Recorded room { pattern, detectorName }
  | harmless {pattern detectorName variant : Value} {canAnalyze : Bool} {predicted : Complexity}
      (hpattern : pattern.FitsRoom (room + 4)) (hname : detectorName.FitsRoom (room + 4))
      (hvariant : variant.FitsRoom (room + 4)) :
      Recorded room {
        pattern, detectorName, canAnalyze := .bool canAnalyze, predicted := .str predicted.name
        patternVariant := some variant }
  | vulnerable {pattern detectorName variant : Value} {predicted : Complexity}
      {inputs : List EvilInput} (hpattern : pattern.FitsRoom (room + 4))
      (hname : detectorName.FitsRoom (room + 4)) (hvariant : variant.FitsRoom (room + 4))
      (hinputs : ∀ i ∈ inputs, i.Recorded room) :
      Recorded room {
        pattern, detectorName, canAnalyze := .bool true, isVuln := .bool true
        predicted := .str predicted.name, patternVariant := some variant
        evilInputs := some (.items (inputs.map .record)) }

def forget (o : Opinion) : Opinion := { o with predicted := .str Complexity.unknown.name }

def NamesVariant (o : Opinion) : Prop := o.timedOut.holds = true ∨ o.patternVariant.isSome = true

/-- An opinion that names its variant comes back without its prediction. -/
theorem Recorded.carried (hroom : room + 3 ≤ nestingLimit) (h : o.Recorded room)
    (hnames : o.NamesVariant) : Carried toValue ofObject (room + 5) o o.forget := by
  cases h with
  | timedOut hpattern hname =>
    exact ⟨_, rfl, fitsRoom_object (by simp) (by simp [hpattern, hname]), rfl⟩
  | failed => simp [NamesVariant, holds, Atom.holds] at hnames
  | harmless hpattern hname hvariant =>
    exact ⟨_, rfl, fitsRoom_object (by simp) (by simp [hpattern, hname, hvariant]), rfl⟩
  | @vulnerable pattern detectorName variant predicted is hpattern hname hvariant his =>
    have hcarried : List.Forall₂ (Carried EvilInput.toValue EvilInput.ofObject (room + 3)) is is :=
      forall₂_same.mpr fun i hi => (his i hi).carried (by omega)
    obtain ⟨inputs, hwrite, hfits, hread⟩ := Carried.list hroom hcarried
    exact ⟨_, toValue_vulnerable hwrite detectorName pattern variant _, fitsRoom_object (by simp)
      (by simp [hpattern, hname, hvariant, hfits]),
      ofObject_objectOf hread detectorName pattern variant⟩

theorem Recorded.exists_predicted (h : o.Recorded room) :
    ∃ c : Complexity, o.predicted = .str c.name := by
  cases h with
  | timedOut | failed => exact ⟨.unknown, rfl⟩
  | @harmless _ _ _ _ predicted | @vulnerable _ _ _ predicted => exact ⟨predicted, rfl⟩

theorem Recorded.toValue_ne_ok (h : o.Recorded room) (hnames : ¬o.NamesVariant) (v : Value) :
    o.toValue ≠ .ok v := by
  cases h with
  | failed => nofun
  | _ => exact absurd (by simp [NamesVariant, holds, Atom.holds]) hnames

end Opinion

namespace Analysis

variable {a : Analysis} {os : List Opinion} {ts : List (String × Timeouts)}
  {valid : List (String × Bool)}

/-- An analysis after the detectors were asked and some languages tried, within the limits of a
line. -/
structure Recorded (a : Analysis) (os : List Opinion) (valid : List (String × Bool))
    (ts : List (String × Timeouts)) : Prop where
  regex : ∃ r, a.regex = .record r ∧ r.Storable ∧ ∀ v ∈ r.storedValues, v.FitsAt 2
  timeout : a.timeout.FitsAt 1
  powerPumps : a.powerPumps.FitsAt 1
  opinions : a.opinions = .items (os.map .record)
  opinion : ∀ o ∈ os, o.Recorded (nestingLimit - 7)
  validIn : a.validIn = .object (valid.map fun l => (l.1, .bool l.2))
  validKeys : (valid.map Prod.fst).Nodup
  timedOutBy : a.timedOutBy = .object (tables ts)
  tableKeys : (ts.map Prod.fst).Nodup

def membersOf (a : Analysis) (regex : Value) (opinions : List Value) (timedOutBy : Value) :
    Members :=
  [("regex", regex), ("slTimeout", a.timeout), ("powerPumps", a.powerPumps),
    ("detectorOpinions", .list opinions), ("lang_validPattern", a.validIn),
    ("lang_pump2timedOut", timedOutBy)]

/-- The object of an analysis read back: its tables are what is left to restore. -/
theorem read_run {line : String} {regex : Value} {r : Regex} {vs : List Value}
    (hline : ofText line = .ok (.object (membersOf a regex vs (.object (lineTables ts)))))
    (hregex : (Regex.readObject regex).run {} = (.ok (), r))
    (hopinions : vs.mapM Opinion.ofObject = .ok os) (b : Analysis) :
    (read (.str line)).run b = (restoreTables (ts.map fun t => .str t.1)).run {
      a with
      regex := .record r
      opinions := .items (os.map .record)
      timedOutBy := .object (lineTables ts) } := by
  have hvs : (do
      (← (← (object (membersOf a regex vs (.object (lineTables ts)))).get
        "detectorOpinions").parts).mapM Opinion.ofObject) = .ok os := hopinions
  have hlanguages : (object (lineTables ts)).parts = .ok (ts.map fun t => .str t.1) := by
    rw [object, parts, lineTables, map_map, map_map]
    rfl
  have hfound : (do (Regex.readObject (← (object (membersOf a regex vs
      (.object (lineTables ts)))).get "regex")).made {}) = .ok r := Edit.made_eq_ok.mpr hregex
  rw [read, ofLine_str, run_lift_bind hline, run_lift_bind hfound, run_modify_bind,
    setOptional_bind _ (v := a.timeout) rfl,
    setOptional_bind _ (v := a.powerPumps) rfl, run_lift_bind hvs, run_modify_bind,
    setFields_cons_bind _ (v := a.validIn) rfl,
    setFields_cons_bind _ (v := .object (lineTables ts)) rfl, setFields_nil_bind,
    run_get_state_bind]
  dsimp only
  rw [run_lift_bind hlanguages]

theorem write_tables (ts : List (String × Timeouts)) :
    write (.object (tables ts)) = write (.object (lineTables ts)) := by
  refine write_dict_congr ?_
  rw [tables, lineTables, map_map, map_map, forall₂_map_left_iff,
    forall₂_map_right_iff, forall₂_same]
  exact fun t _ => ⟨rfl, t.2.write_toValue⟩

theorem fitsAt_lineTables (hkeys : (ts.map Prod.fst).Nodup) :
    (object (lineTables ts)).FitsAt 1 := by
  have hlanguages : (lineTables ts).map Prod.fst = ts.map Prod.fst := by
    rw [lineTables, map_map]
    rfl
  refine .object (by decide) (hlanguages ▸ hkeys) fun m hm => ?_
  obtain ⟨t, -, rfl⟩ := mem_map.mp hm
  exact t.2.fitsAt_onLine (by decide)

theorem Recorded.line (h : a.Recorded os valid ts) (hnames : ∀ o ∈ os, o.NamesVariant) :
    ∃ line regex vs r s, a.toLine = .ok line ∧
      ofText line = .ok (.object (membersOf a regex vs (.object (lineTables ts)))) ∧
      a.regex = .record r ∧ (Regex.readObject regex).run {} = (.ok (), s) ∧ r.SameAs s ∧
      vs.mapM Opinion.ofObject = .ok (os.map Opinion.forget) := by
  obtain ⟨r, hr, hstorable, hdata⟩ := h.regex
  obtain ⟨rline, ns, s, -, -, hfits, hsame, hlines⟩ := hstorable.object
  obtain ⟨hrline, -, hparse, hread⟩ := hlines le_rfl
  have hcarried : List.Forall₂ (Carried Opinion.toValue Opinion.ofObject (nestingLimit - 2)) os
      (os.map Opinion.forget) :=
    forall₂_map_right_iff.mpr (forall₂_same.mpr fun o ho =>
      (h.opinion o ho).carried (by decide) (hnames o ho))
  obtain ⟨vs, hwrite, hvs, hopinions⟩ := Carried.list (by decide) hcarried
  have hvalue : a.toValue = .ok (.object (membersOf a (.object ns) vs a.timedOutBy)) := by
    rw [toValue, hr, h.opinions]
    simp only [Held.get, ok_bind, hrline, hparse, Records.parts] at hwrite ⊢
    rw [hwrite]
    rfl
  have hvalid : a.validIn.FitsAt 1 := by
    have hkeys := h.validKeys
    rw [h.validIn]
    refine .object (by decide) (by rwa [map_map]) fun m hm => ?_
    obtain ⟨l, -, rfl⟩ := mem_map.mp hm
    exact .bool l.2
  have hobject :
      (object (membersOf a (.object ns) vs (.object (lineTables ts)))).FitsAt 0 := by
    refine .object (by decide) (by simp [membersOf]) ?_
    simp only [membersOf, forall_mem_cons, not_mem_nil, false_imp_iff, implies_true, and_true]
    exact ⟨hfits 1 (by decide) hdata, h.timeout, h.powerPumps, hvs, hvalid,
      fitsAt_lineTables h.tableKeys⟩
  have hrender : render (.object (membersOf a (.object ns) vs a.timedOutBy)) =
      render (.object (membersOf a (.object ns) vs (.object (lineTables ts)))) := by
    have htables : write a.timedOutBy = write (.object (lineTables ts)) := by
      rw [h.timedOutBy, write_tables]
    refine congrArg String.ofList (write_dict_congr ?_)
    exact .cons ⟨rfl, rfl⟩ (.cons ⟨rfl, rfl⟩ (.cons ⟨rfl, rfl⟩ (.cons ⟨rfl, rfl⟩
      (.cons ⟨rfl, rfl⟩ (.cons ⟨rfl, htables⟩ .nil)))))
  have htext := ofText_render_object hobject.1 hobject.2
  refine ⟨_, .object ns, vs, r, s, ?_, htext, hr, hread, hsame, hopinions⟩
  rw [toLine, hvalue, ok_bind, hrender]
  rfl

theorem Recorded.namesVariant (h : a.Recorded os valid ts) {line : String}
    (hline : a.toLine = .ok line) : ∀ o ∈ os, o.NamesVariant := by
  intro o ho
  by_contra hnames
  rw [toLine, toValue, h.opinions] at hline
  simp only [bind_eq_ok, Records.parts] at hline
  obtain ⟨_, ⟨_, _, _, _, _, _, _, ⟨⟩, vs, hvs, -⟩, -⟩ := hline
  rw [mapM_eq_ok, forall₂_map_left_iff] at hvs
  obtain ⟨v, -, hv⟩ := exists_of_mem_right hvs.flip ho
  obtain ⟨_, ⟨⟩, hv⟩ := bind_eq_ok.mp hv
  obtain ⟨w, hw, -⟩ := bind_eq_ok.mp hv
  exact (h.opinion o ho).toValue_ne_ok hnames w hw

/-! ### What the predictions become -/

theorem worstPrediction_eq (hopinions : a.opinions = .items (os.map .record))
    (hos : ∀ o ∈ os, ∃ c : Complexity, o.predicted = .str c.name) :
    ∃ c, a.worstPrediction = .ok c ∧
      (c = .unknown ↔ ∀ o ∈ os, o.predicted = .str Complexity.unknown.name) := by
  obtain ⟨c, hc, hworst⟩ := exists_isWorst hopinions hos
  exact ⟨c, hc, hworst.eq_unknown_iff hos⟩

theorem performance_forget {a' : Analysis} (hopinions : a.opinions = .items (os.map .record))
    (hopinions' : a'.opinions = .items ((os.map Opinion.forget).map .record))
    (hpower : a'.powerPumps = a.powerPumps) (hvalid : a'.validIn = a.validIn)
    (htimedOut : a'.timedOutBy = a.timedOutBy) (language : Value) :
    a'.performance language = a.performance language := by
  have hverdict (l : String) : a'.verdict? l = a.verdict? l := by
    rw [verdict?, verdict?, hvalid, htimedOut]
  have hharmless (o : Opinion) : harmless (.record o.forget) = harmless (.record o) := rfl
  unfold performance
  simp only [hverdict, hopinions, hopinions', hpower, Records.parts, ok_bind, map_map,
    forIn_map, Function.comp_apply, hharmless]

/-! ### Analyses read back -/

/-- An analysis as it is after its line was read: all of it is back, except that opinions have lost
their predictions and that tables after the first one with any counts have kept texts for numbers. -/
structure ComesBack (a : Analysis) (os : List Opinion) (ts : List (String × Timeouts))
    (a' : Analysis) : Prop where
  regex : ∃ r s, a.regex = .record r ∧ a'.regex = .record s ∧ r.SameAs s
  timeout : a'.timeout = a.timeout
  powerPumps : a'.powerPumps = a.powerPumps
  opinions : a'.opinions = .items ((os.map Opinion.forget).map .record)
  validIn : a'.validIn = a.validIn
  timedOutBy : a'.timedOutBy = .object (restored ts)

theorem restored_of_empty (h : ∀ t ∈ ts, t.2.counts = []) : restored ts = tables ts := by
  induction ts with
  | nil => rfl
  | cons t ts ih =>
    rw [forall_mem_cons] at h
    rw [restored, h.1, isEmpty_nil, if_pos rfl, ih h.2]
    rfl

theorem Recorded.read_line (h : a.Recorded os valid ts) {line : String}
    (hline : a.toLine = .ok line) (b : Analysis) :
    ∃ a', (read (.str line)).run b = (restoreOutcome ts, a') ∧ a.ComesBack os ts a' := by
  obtain ⟨line', regex, vs, r, s, hline', hobject, hr, hread, hsame, hopinions⟩ :=
    h.line (h.namesVariant hline)
  rw [hline, Except.ok.injEq] at hline'
  subst hline'
  have hkeys : (([] ++ lineTables ts).map Prod.fst).Nodup := by
    rw [nil_append, lineTables, map_map]
    exact h.tableKeys
  have hrun := read_run hobject hread hopinions b
  rw [restoreTables_run hkeys rfl] at hrun
  exact ⟨_, hrun, {
    regex := ⟨r, s, hr, rfl, hsame⟩
    timeout := rfl
    powerPumps := rfl
    opinions := rfl
    validIn := rfl
    timedOutBy := rfl }⟩

theorem ComesBack.worstPrediction_eq_iff {a' : Analysis} (hback : a.ComesBack os ts a')
    (h : a.Recorded os valid ts) :
    a'.worstPrediction = a.worstPrediction ↔
      ∀ o ∈ os, o.predicted = .str Complexity.unknown.name := by
  have hpredicted : ∀ o ∈ os.map Opinion.forget, ∃ c : Complexity, o.predicted = .str c.name := by
    rw [forall_mem_map]
    exact fun o _ => ⟨.unknown, rfl⟩
  obtain ⟨c, hc, hunknown⟩ := worstPrediction_eq h.opinions fun o ho =>
    (h.opinion o ho).exists_predicted
  obtain ⟨d, hd, hforgotten⟩ := worstPrediction_eq hback.opinions hpredicted
  obtain rfl : d = .unknown := hforgotten.mpr (by simp [Opinion.forget])
  rw [hc, hd, Except.ok.injEq, ← hunknown, eq_comm]

/-- The analysis comes back from its line without a fault exactly if no table has any counts. Then all
languages are expected to perform as before. The worst prediction is as before exactly if nothing was
predicted. There is a line if every detector that did not run out of time named the variant it looked
at. -/
theorem read_toLine {a : Analysis} {os : List Opinion} {valid : List (String × Bool)}
    {ts : List (String × Timeouts)} (h : a.Recorded os valid ts) :
    ((∃ line, a.toLine = .ok line) ↔ ∀ o ∈ os, o.NamesVariant) ∧
    ∀ line, a.toLine = .ok line → ∀ b, ∃ r a', (read (.str line)).run b = (r, a') ∧
      a.ComesBack os ts a' ∧
      (r = .ok () ↔ ∀ t ∈ ts, t.2.counts = []) ∧
      (r ≠ .ok () → r = .error .changedWhileRead) ∧
      (r = .ok () → a'.timedOutBy = a.timedOutBy ∧
        ∀ language, a'.performance language = a.performance language) ∧
      (a'.worstPrediction = a.worstPrediction ↔
        ∀ o ∈ os, o.predicted = .str Complexity.unknown.name) := by
  refine ⟨⟨fun ⟨line, hline⟩ => h.namesVariant hline, fun hnames => ?_⟩, fun line hline b => ?_⟩
  · obtain ⟨line, _, _, _, _, hline, -⟩ := h.line hnames
    exact ⟨line, hline⟩
  obtain ⟨a', hrun, hback⟩ := h.read_line hline b
  have houtcome : restoreOutcome ts = .ok () ↔ ∀ t ∈ ts, t.2.counts = [] := by
    simp [restoreOutcome]
  refine ⟨_, a', hrun, hback, houtcome, ?_, fun hok => ?_, hback.worstPrediction_eq_iff h⟩
  · rw [restoreOutcome]
    split <;> simp
  · have htables : a'.timedOutBy = a.timedOutBy := by
      rw [hback.timedOutBy, restored_of_empty (houtcome.mp hok), h.timedOutBy]
    exact ⟨htables, performance_forget h.opinions hback.opinions hback.powerPumps hback.validIn
      htables⟩

/-! ### A pattern that was tried, and one that was not -/

/-- A detector expects a nested quantifier to take exponential time on some inputs. -/
def alarm (inputs : List EvilInput) : Opinion :=
  { pattern := .str "(a+)+$"
    detectorName := .str "det"
    canAnalyze := .bool true
    isVuln := .bool true
    predicted := .str Complexity.exponential.name
    patternVariant := some (.str "(a+)+$")
    evilInputs := some (.items (inputs.map .record)) }

/-- The nested quantifier with that opinion and what came of trying it. -/
def alarming (inputs : List EvilInput) (valid : List (String × Bool))
    (ts : List (String × Timeouts)) : Analysis :=
  { regex := .record (.bare (.str "(a+)+$"))
    opinions := .items [.record (alarm inputs)]
    validIn := .object (valid.map fun l => (l.1, .bool l.2))
    timedOutBy := .object (tables ts) }

theorem recorded_alarming {inputs : List EvilInput} (hinputs : ∀ i ∈ inputs, i.Recorded (nestingLimit - 7))
    (hvalid : (valid.map Prod.fst).Nodup) (hts : (ts.map Prod.fst).Nodup) :
    (alarming inputs valid ts).Recorded [alarm inputs] valid ts where
  regex := ⟨_, rfl, Regex.storable_bare (by decide), Regex.fitsAt_storedValues_bare _ (by decide)⟩
  timeout := .digit (by decide)
  powerPumps := .int (short_of_digits (k := 6) (by decide) (by decide))
  opinions := rfl
  opinion := by
    rw [forall_mem_singleton]
    exact .vulnerable (.str _) (.str _) (.str _) hinputs
  validIn := rfl
  validKeys := hvalid
  timedOutBy := rfl
  tableKeys := hts

/-- Two matches that timed out. -/
def twoTimeouts : Timeouts where
  counts := [(fewPumps, true), (manyPumps, true)]
  nodup := by decide
  short := by
    simp only [forall_mem_cons, not_mem_nil, false_imp_iff, implies_true, and_true]
    exact ⟨Value.short_of_digits (k := 3) (by decide) (by decide),
      Value.short_of_digits (k := 6) (by decide) (by decide)⟩

def repeatedLetter : EvilInput :=
  { couldParse := .bool true
    pumpPairs := .items [.record { lead := .str "", pump := .str "a" }]
    suffix := .str "!" }

theorem recorded_repeatedLetter : repeatedLetter.Recorded room :=
  @EvilInput.Recorded.parts room [{ lead := .str "", pump := .str "a" }] (.str "!")
    (by simp) (.str "!")

/-- The alarm turned out to be right in a language. -/
def confirmed : Analysis :=
  alarming [repeatedLetter] [("python", true)] [("python", twoTimeouts)]

/-- What was confirmed cannot be read back, and what is left of it has lost the prediction. -/
theorem read_toLine_confirmed :
    ∃ line, confirmed.toLine = .ok line ∧
      ∀ b, ∃ a', (read (.str line)).run b = (Except.error .changedWhileRead, a') ∧
        a'.worstPrediction ≠ confirmed.worstPrediction := by
  have hrecorded : confirmed.Recorded [alarm [repeatedLetter]] [("python", true)]
      [("python", twoTimeouts)] :=
    recorded_alarming (by simp [recorded_repeatedLetter]) (by simp) (by simp)
  obtain ⟨line, _, _, _, _, hline, -⟩ := hrecorded.line (by simp [Opinion.NamesVariant, alarm])
  refine ⟨line, hline, fun b => ?_⟩
  obtain ⟨a', hrun, hback⟩ := hrecorded.read_line hline b
  refine ⟨a', hrun, fun hsame => ?_⟩
  have hunknown := (hback.worstPrediction_eq_iff hrecorded).mp hsame
  simp [alarm, Complexity.name] at hunknown

/-- The table of a language in which nothing was tried. -/
def noTimeouts : Timeouts := ⟨[], by simp, by simp⟩

/-- No input of the alarm could be parsed, so none was tried, and the analysis is read back. -/
theorem read_toLine_untried :
    ∃ line, (alarming [{}] [] [("python", noTimeouts)]).toLine = .ok line ∧
      ∀ b, ∃ a', (read (.str line)).run b = (Except.ok (), a') ∧
        ∀ language, a'.performance language =
          (alarming [{}] [] [("python", noTimeouts)]).performance language := by
  have hrecorded : (alarming [{}] [] [("python", noTimeouts)]).Recorded [alarm [{}]] []
      [("python", noTimeouts)] :=
    recorded_alarming (by simp [EvilInput.Recorded.text]) (by simp) (by simp)
  obtain ⟨hline, hread⟩ := read_toLine hrecorded
  obtain ⟨line, hline⟩ := hline.mpr (by simp [Opinion.NamesVariant, alarm])
  refine ⟨line, hline, fun b => ?_⟩
  obtain ⟨r, a', hrun, -, hiff, -, hsame, -⟩ := hread line hline b
  obtain rfl : r = .ok () := hiff.mpr (by simp [noTimeouts])
  exact ⟨a', hrun, (hsame rfl).2⟩

end Analysis
end SuperLinear
end RegexCorpus
