import RegexCorpus.Measure.Feature
import RegexCorpus.Proofs.Measure.Line
import RegexCorpus.Proofs.Measure.Load

/-!
# Metrics where features are counted

The line of a pattern's metrics is read as a record with the same members. Counting the features of
such a record looks for them under another key, and fails; the features that stand in the record
would have the counts that the metrics say.
-/

namespace RegexCorpus.Measure
open List Value Json

variable {es : Entries} {m : Metrics} {record : Value}

/-! ### Counts -/

/-- A count: a natural number, or null when it is not known. -/
inductive IsCount : Value → Prop
  | null : IsCount .null
  | known (n : ℕ) : IsCount (.int n)

/-- The number of uses that a count stands for. -/
def amount : Value → ℕ
  | .int n => n.toNat
  | _ => 0

def totalAmount (es : Entries) : ℕ := (es.map fun e => amount e.2).sum

/-- The number of counts above zero. -/
def usedCount (es : Entries) : ℕ := es.countP fun e => decide (0 < amount e.2)

theorem featureSums_counts (h : ∀ e ∈ es, IsCount e.2) (d t : ℕ) :
    featureSums es (d, .int t) = .ok (d + usedCount es, .int ((t + totalAmount es : ℕ) : ℤ)) := by
  induction es generalizing d t with
  | nil => rfl
  | cons e es ih =>
    obtain ⟨k, v⟩ := e
    rw [forall_mem_cons] at h
    cases h.1 with
    | null =>
      rw [featureSums, if_neg (by simp [Value.holds, Atom.holds]), ih h.2]
      simp [usedCount, totalAmount, amount]
    | known n =>
      have hadd : (Value.int t).add (.int n) = .ok (.int ((t + n : ℕ) : ℤ)) := by
        push_cast
        rfl
      rcases Nat.eq_zero_or_pos n with rfl | hn
      · rw [featureSums, if_neg (by simp [Value.holds, Atom.holds]), ih h.2]
        simp [usedCount, totalAmount, amount]
      · rw [featureSums, if_pos (by simp [Value.holds, Atom.holds]; omega), hadd, Outcome.ok_bind,
          ih h.2]
        simp [usedCount, totalAmount, amount, hn]
        omega

theorem isUsed_count {v : Value} (h : IsCount v) : isUsed v = .ok (decide (0 < amount v)) := by
  cases h with
  | null => rfl
  | known n => cases n <;> rfl

theorem distinctFeatures_eq (h : ∀ e ∈ es, isUsed e.2 = .ok (decide (0 < amount e.2))) :
    distinctFeatures es = .ok (usedCount es) := by
  have hmap : es.mapM (fun e => isUsed e.2) = .ok (es.map fun e => decide (0 < amount e.2)) := by
    rw [mapM_eq_ok, forall₂_map_right_iff, forall₂_same]
    exact h
  rw [distinctFeatures, hmap, Outcome.ok_bind, filter_map, length_map, usedCount,
    countP_eq_length_filter]
  rfl

theorem distinctFeatures_counts (h : ∀ e ∈ es, IsCount e.2) :
    distinctFeatures es = .ok (usedCount es) :=
  distinctFeatures_eq fun e he => isUsed_count (h e he)

theorem totalAmount_perm {fs : Entries} (h : es.Perm fs) : totalAmount es = totalAmount fs :=
  (h.map _).sum_eq

theorem usedCount_perm {fs : Entries} (h : es.Perm fs) : usedCount es = usedCount fs :=
  h.countP_eq _

/-! ### Metrics and their records -/

/-- Metrics of data, with counts of features and the number of features that are used. -/
structure Metrics.Countable (m : Metrics) : Prop where
  data : Value.IsJson (.object m.members)
  counts : ∀ e ∈ m.features, IsCount e.2
  distinct : Measure.distinctFeatures m.features = .ok m.distinctFeatures

/-- The record holds the metrics, whatever the order of keys. Its features have the counts that the
metrics say, and it is as valid as they say. -/
structure IsRecordOf (m : Metrics) (record : Value) : Prop where
  same : Value.Reordered (.object m.members) record
  features : ∃ es, record.get "featureVector" = .ok (.dict es) ∧
    featureSums es (0, .int 0) = .ok (m.distinctFeatures, .int (totalAmount m.features))
  valid : ∃ v, record.get "validInCSharp" = .ok v ∧ m.valid.Reordered v

/-- Counts read back from a line are the same, in some order. -/
theorem exists_perm_of_reordered (h : ∀ e ∈ es, IsCount e.2) (hkeys : (es.map Prod.fst).Nodup)
    {v : Value} (hv : Value.Reordered (.dict es) v) : ∃ fs, v = .dict fs ∧ es.Perm fs := by
  cases hv with
  | @dict _ fs hperm hvalues =>
    have hkeys' : (fs.map Prod.fst).Nodup := hperm.nodup_iff.mp hkeys
    have hatom {k : Atom} {x y : Value} (hx : (k, x) ∈ es) (hy : (k, y) ∈ fs) : x = y := by
      have hr := hvalues k x y hx hy
      cases h (k, x) hx with
      | null | known => exact (eq_of_reordered_atom hr).symm
    refine ⟨fs, rfl, ?_⟩
    rw [perm_ext_iff_of_nodup (.of_map _ hkeys) (.of_map _ hkeys')]
    rintro ⟨k, x⟩
    constructor
    · intro hx
      obtain ⟨⟨_, y⟩, hy, rfl⟩ := mem_map.mp (hperm.mem_iff.mp (mem_map_of_mem hx))
      rwa [hatom hx hy]
    · intro hy
      obtain ⟨⟨_, x'⟩, hx, rfl⟩ := mem_map.mp (hperm.mem_iff.mpr (mem_map_of_mem hy))
      rwa [← hatom hx hy]

theorem nodup_of_isJson (h : Value.IsJson (.dict es)) : (es.map Prod.fst).Nodup := by
  generalize hv : Value.dict es = v at h
  cases h with
  | @object ms hkeys _ =>
    obtain rfl := Value.dict.inj hv
    have hstr := hkeys.map fun _ _ (hk : Atom.str _ = Atom.str _) => Atom.str.inj hk
    rwa [map_map] at hstr ⊢
  | _ => cases hv

theorem isRecordOf_of_isLineOf (h : m.Countable) {line : String} {ns : Members}
    (hns : Json.IsLineOf m.members line ns) : IsRecordOf m (.object ns) := by
  have hmember : ("featureVector", Value.dict m.features) ∈ m.members := by simp [Metrics.members]
  have hvalid : ("validInCSharp", m.valid) ∈ m.members := by simp [Metrics.members]
  obtain ⟨v, hv, hvalid⟩ := Value.get_of_isLineOf hns hvalid
  obtain ⟨w, hw, hfeatures⟩ := Value.get_of_isLineOf hns hmember
  have hkeys := nodup_of_isJson ((ofAtoms_object.mp h.data).2 _ hmember)
  obtain ⟨es, rfl, hperm⟩ := exists_perm_of_reordered h.counts hkeys hfeatures
  have hcounts : ∀ e ∈ es, IsCount e.2 := fun e he => h.counts e (hperm.mem_iff.mpr he)
  refine ⟨hns.reordered, ⟨es, hw, ?_⟩, v, hv, hvalid⟩
  have hdistinct : usedCount m.features = m.distinctFeatures :=
    Except.ok.inj ((distinctFeatures_counts h.counts).symm.trans h.distinct)
  have hsums := featureSums_counts hcounts 0 0
  rwa [Nat.zero_add, Nat.zero_add, ← usedCount_perm hperm, ← totalAmount_perm hperm,
    hdistinct] at hsums

theorem exists_record (h : m.Countable) {line : String} (hline : m.toLine = .ok line) :
    ∃ record, Json.parse (Text.trim (line ++ "\n")) = .ok record ∧ IsRecordOf m record := by
  obtain ⟨ns, hns⟩ := Json.exists_isLineOf h.data hline
  refine ⟨.object ns, ?_, isRecordOf_of_isLineOf h hns⟩
  rw [hns.trim, hns.parse le_rfl]

theorem get_metrics (h : IsRecordOf m record) :
    record.get "metrics" = .error (.missingKey (.str "metrics")) := by
  have hsame := h.same
  obtain ⟨ns, rfl⟩ := exists_object_of_reordered hsame
  obtain ⟨hkeys, -⟩ := reordered_object.mp hsame
  have hnone : findMember ns "metrics" = none := by
    rw [Option.eq_none_iff_forall_ne_some]
    intro v hv
    have hmem := hkeys.mem_iff.mpr (mem_map_of_mem (mem_of_findMember hv))
    simp [Metrics.members] at hmem
  rw [get_object, hnone]

theorem countFeatures_record (h : IsRecordOf m record) :
    countFeatures record = .error (.missingKey (.str "metrics")) := by
  rw [countFeatures, get_metrics h]
  rfl

theorem parsed_cons (h : IsRecordOf m record) (records : List Value) :
    parsed (record :: records) = .error (.missingKey (.str "metrics")) := by
  rw [parsed, List.filterM, List.filterAuxM, get_metrics h]
  rfl

/-! ### Files of metrics -/

theorem recordsOf_cons {l : String} (h : Json.parse (Text.trim l) = .ok record) (ls : List String) :
    recordsOf (l :: ls) = record :: recordsOf ls := by
  have hfull : (!(Text.trim l).isEmpty) = true := by
    rw [Bool.not_eq_true', ← Bool.not_eq_true, String.isEmpty_iff]
    intro hempty
    rw [hempty] at h
    cases h
  rw [recordsOf, map_cons, filter_cons, if_pos hfull, filterMap_cons, h]
  rfl

theorem loadRecords_run {ms : List Metrics} {lines : List String} (hms : ∀ m ∈ ms, m.Countable)
    (hlines : List.Forall₂ (fun m line => m.toLine = .ok line) ms lines) {h : Host} {path : String}
    (hh : h.Holds path (.text (Text.unlines lines))) :
    ∃ records, (loadRecords path).run h = (.ok records, h) ∧
      List.Forall₂ IsRecordOf ms records := by
  have hone : ∀ l ∈ lines, Text.IsOneLine l := by
    intro l hl
    obtain ⟨m, -, hm⟩ := exists_of_mem_right hlines hl
    exact isOneLine_of_isPlain (isPlain_toLine hm)
  have hread := hh.readLines (Content.lines_unlines hone)
  refine ⟨_, run_bind_eq_ok.mpr ⟨_, h, hread, rfl⟩, ?_⟩
  clear hh hread hone
  induction hlines with
  | nil => exact .nil
  | cons hline _ ih =>
    rw [forall_mem_cons] at hms
    obtain ⟨record, hparse, hrecord⟩ := exists_record hms.1 hline
    rw [map_cons, recordsOf_cons hparse]
    exact .cons hrecord (ih hms.2)

/-- A file of metrics is read record by record as it was written, and the features of a record have
the counts that its metrics say. But no record is counted or selected: features are looked for under
a key that metrics do not have. -/
theorem metrics_not_counted {ms : List Metrics} {lines : List String}
    (hms : ∀ m ∈ ms, m.Countable)
    (hlines : List.Forall₂ (fun m line => m.toLine = .ok line) ms lines) {h : Host} {path : String}
    (hh : h.Holds path (.text (Text.unlines lines))) :
    ∃ records, (loadRecords path).run h = (Except.ok records, h) ∧
      List.Forall₂ IsRecordOf ms records ∧
      (∀ record ∈ records, countFeatures record = .error (.missingKey (.str "metrics"))) ∧
      (ms ≠ [] → countAllFeatures records = (.error (.missingKey (.str "metrics")), records) ∧
        ∀ languages, (selectRecords path languages).run h =
          (Except.error (.missingKey (.str "metrics")), h)) := by
  obtain ⟨records, hload, hrecords⟩ := loadRecords_run hms hlines hh
  refine ⟨records, hload, hrecords, fun record hrecord => ?_, fun hne => ?_⟩
  · obtain ⟨m, -, hm⟩ := exists_of_mem_right hrecords hrecord
    exact countFeatures_record hm
  · cases hrecords with
    | nil => exact absurd rfl hne
    | @cons m record ms records hm _ =>
      refine ⟨?_, fun languages => ?_⟩
      · rw [countAllFeatures, countFeatures_record hm]
      · rw [selectRecords, run_bind_of_ok hload, parsed_cons hm]
        rfl

/-- The metrics of a valid pattern that uses two features. -/
def twoFeatures : Metrics where
  pattern := .str "ab|c"
  staticLanguages := ["python"]
  dynamicLanguages := []
  csharp := "ab|c"
  valid := .bool true
  features := [(.str "LIT", .int 2), (.str "OR", .int 1), (.str "KLE", .int 0), (.str "BKR", .null)]
  automaton := .object []
  paths := 2
  distinctFeatures := 2
  worstCase := .unknown
  density := .null
  usesSuperLinear := false

theorem members_twoFeatures : twoFeatures.members = [
    ("origPattern", .str "ab|c"), ("origLangsStatic", .list [.str "python"]),
    ("origLangsDynamic", .list []), ("csharpPattern", .str "ab|c"),
    ("csharpRegexLen", .int "ab|c".length), ("validInCSharp", .bool true),
    ("featureVector", .object [("LIT", .int 2), ("OR", .int 1), ("KLE", .int 0), ("BKR", .null)]),
    ("automatonMetrics", .object []), ("nSimplePaths", .int 2), ("nDistinctFeaturesUsed", .int 2),
    ("predictedWorstCaseSpencer", .str "unknown"), ("averageOutDegreeDensity", .null),
    ("usesSuperLinearFeatures", .bool false)] := rfl

theorem countable_twoFeatures : twoFeatures.Countable where
  data := by
    rw [members_twoFeatures]
    simp
  counts := by
    simp only [twoFeatures, forall_mem_cons]
    exact ⟨.known 2, .known 1, .known 0, .null, by simp⟩
  distinct := rfl

theorem exists_line_twoFeatures : ∃ line, twoFeatures.toLine = .ok line := by
  have hdigit {n : ℤ} (hn : n.natAbs < 10) : (Atom.int n).Short := short_digit hn
  refine (exists_toLine_iff countable_twoFeatures.data (Json.nestingLimit - 1)).mpr ?_
  have hroom : Json.nestingLimit - 1 = 987 + 1 := rfl
  have hlength : "ab|c".length = 4 := by decide
  rw [members_twoFeatures, hroom, hlength]
  simp [hdigit]

/-- A file with the metrics is read, and nothing is counted. -/
theorem metrics_not_counted_twoFeatures :
    ∃ h records, (loadRecords "metrics").run h = (Except.ok records, h) ∧
      List.Forall₂ IsRecordOf [twoFeatures] records ∧
      (selectRecords "metrics" []).run h = (Except.error (.missingKey (.str "metrics")), h) := by
  have hpath : Host.CanWrite {} "metrics" := ⟨["metrics"], none, rfl, by simp⟩
  obtain ⟨line, hline⟩ := exists_line_twoFeatures
  obtain ⟨h, -, hh⟩ := Act.writeFile_run hpath (Text.unlines [line])
  have hms : ∀ m ∈ [twoFeatures], m.Countable := by simp [countable_twoFeatures]
  obtain ⟨records, hload, hrecords, -, hfails⟩ :=
    metrics_not_counted hms (.cons hline .nil) hh
  exact ⟨h, records, hload, hrecords, (hfails (by simp)).2 []⟩

/-- The line of valid metrics is read as a record that is neither selected nor counted. -/
theorem record_not_counted :
    twoFeatures.valid.holds = true ∧ ∃ line record, twoFeatures.toLine = .ok line ∧
      Json.parse (Text.trim (line ++ "\n")) = .ok record ∧
      parsed [record] = .error (.missingKey (.str "metrics")) ∧
      countFeatures record = .error (.missingKey (.str "metrics")) := by
  obtain ⟨line, hline⟩ := exists_line_twoFeatures
  obtain ⟨record, hparse, hrecord⟩ := exists_record countable_twoFeatures hline
  exact ⟨rfl, line, record, hline, hparse, parsed_cons hrecord [], countFeatures_record hrecord⟩

end RegexCorpus.Measure
