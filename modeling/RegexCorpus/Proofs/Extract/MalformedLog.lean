import RegexCorpus.Proofs.Extract.PatternLog

/-!
# Logs with malformed lines

A line that can be read may still report no use: its file or its pattern may be missing or no text, or
there may be no flags. Such a line is not passed over. Unless its file is a text, its pattern data
without parts and its flags are there, nothing of the log is loaded; and a pattern that is no text is
listed with the others. So a log with malformed lines never gives what it gives without them. Flags
that are no text are listed too, unless the pattern is used again in the file.
-/

namespace RegexCorpus.PatternLog
open List Outcome Json

variable {es : List Entry} {uses : List Use} {u : Use}

/-! ### What the table has -/

theorem mem_patternsOf {log : PatternLog} {file : Atom} {x : Atom × Value}
    (hx : x ∈ log.patternsOf file) :
    ∃ g patterns, (g, patterns) ∈ log ∧ g.samePart file = true ∧ x ∈ patterns := by
  rw [patternsOf] at hx
  cases hfind : log.find? (·.1.samePart file) with
  | none =>
    rw [hfind] at hx
    cases hx
  | some e =>
    rw [hfind] at hx
    exact ⟨e.1, e.2, mem_of_find?_eq_some hfind, by simpa using find?_some hfind, hx⟩

theorem exists_mem_foldl_add {e : Entry} (he : e ∈ es) :
    ∃ g patterns, (g, patterns) ∈ es.foldl add [] ∧ g.samePart e.file = true ∧
      ∃ (d : Entry) (k : Atom), (k, d.record) ∈ patterns ∧ d.pattern.samePart e.pattern = true := by
  have hmem : (e.pattern, e.record) ∈
      ((es.filter (·.file.samePart e.file)).map fun e => (e.pattern, e.record)).reverse := by
    rw [mem_reverse, mem_map]
    exact ⟨e, mem_filter.mpr ⟨he, Atom.samePart_refl e.file⟩, rfl⟩
  -- the last entry with the same file and pattern is found under them
  obtain ⟨p, hp⟩ : ∃ p, (((es.filter (·.file.samePart e.file)).map
      fun e => (e.pattern, e.record)).reverse.find? (·.1.samePart e.pattern)) = some p := by
    rw [← Option.isSome_iff_exists, find?_isSome]
    exact ⟨_, hmem, Atom.samePart_refl e.pattern⟩
  have hpattern : p.1.samePart e.pattern = true := by simpa using find?_some hp
  obtain ⟨d, -, rfl⟩ := mem_map.mp (mem_reverse.mp (mem_of_find?_eq_some hp))
  have hfound : Entries.find? (patternsOf (es.foldl add []) e.file) e.pattern = some d.record := by
    rw [patternsOf_foldl_add, Entries.find?_ofPairs, hp]
    rfl
  obtain ⟨⟨k, r⟩, hx, rfl⟩ := Option.map_eq_some_iff.mp hfound
  obtain ⟨g, patterns, hlog, hg, hx⟩ := mem_patternsOf (mem_of_find?_eq_some hx)
  exact ⟨g, patterns, hlog, hg, d, k, hx, hpattern⟩

theorem of_mem_foldl_add {g : Atom} {patterns : Entries} (h : (g, patterns) ∈ es.foldl add []) :
    (∃ e ∈ es, e.file = g) ∧ ∀ x ∈ patterns, ∃ e ∈ es, x.2 = e.record := by
  induction es using reverseRecOn generalizing g patterns with
  | nil => cases h
  | append_singleton es e ih =>
    have hold {g : Atom} {patterns : Entries} (h : (g, patterns) ∈ es.foldl add []) :
        (∃ d ∈ es ++ [e], d.file = g) ∧ ∀ x ∈ patterns, ∃ d ∈ es ++ [e], x.2 = d.record := by
      obtain ⟨⟨d, hd, hfile⟩, hrecords⟩ := ih h
      refine ⟨⟨d, mem_append_left _ hd, hfile⟩, fun x hx => ?_⟩
      obtain ⟨d, hd, hrecord⟩ := hrecords x hx
      exact ⟨d, mem_append_left _ hd, hrecord⟩
    rw [foldl_append, foldl_cons, foldl_nil, add, set_eq_upsert] at h
    rcases mem_upsert h with h | ⟨rfl, hfile⟩
    · exact hold h
    · refine ⟨?_, fun x hx => ?_⟩
      · rcases hfile with hfile | ⟨w, hw⟩
        · exact ⟨e, by simp, hfile.symm⟩
        · exact (hold hw).1
      · rw [Entries.set_eq_upsert] at hx
        rcases mem_upsert hx with hx | ⟨hvalue, -⟩
        · obtain ⟨f, ps, hlog, -, hx⟩ := mem_patternsOf hx
          exact (hold hlog).2 x hx
        · exact ⟨e, by simp, hvalue⟩

/-! ### Reading out one file -/

/-- The use that a record of a file stands for. -/
def usageOf (file : Atom) (regex : Value) : Outcome Usage := do
  let basename ← basenameOf (.atom file)
  return .make (← regex.get "pattern") (← regex.get "flags") .null .null (.atom file) basename

theorem usagesIn_eq (file : Atom) (patterns : Entries) :
    usagesIn file patterns = (patterns.map (·.2)).mapM (usageOf file) := rfl

theorem usageOf_record (file : String) (e : Entry) :
    usageOf (.str file) e.record = .ok (e.usageIn file) := rfl

theorem isText_of_usageOf {file : Atom} {regex : Value} {u : Usage}
    (h : usageOf file regex = .ok u) : ∃ s, file = .str s := by
  obtain ⟨b, hb, -⟩ := bind_eq_ok.mp h
  cases file with
  | str s => exact ⟨s, rfl⟩
  | null | bool | int | double => cases hb

theorem isText_of_samePart {a b : Atom} {s : String} (h : a.samePart b = true)
    (ha : a = .str s) : b = .str s := by
  rw [ha, Atom.samePart_comm, Atom.samePart_str] at h
  exact of_decide_eq_true h

theorem of_usages_eq_ok {us : List Usage} (h : (es.foldl add []).usages = .ok us) {e : Entry}
    (he : e ∈ es) :
    (∃ file, e.file = .str file) ∧
      ∃ u ∈ us, ∃ a, u.pattern = some (.atom a) ∧ a.samePart e.pattern = true := by
  obtain ⟨g, patterns, hlog, hg, d, k, hd, hpattern⟩ := exists_mem_foldl_add he
  rw [usages_eq, bind_eq_ok] at h
  obtain ⟨uss, huss, h⟩ := h
  obtain rfl := pure_eq_ok.mp h
  obtain ⟨us, hus, hread⟩ := exists_of_mem_right (mapM_eq_ok.mp huss).flip hlog
  rw [usagesIn_eq] at hread
  obtain ⟨u, hu, hrecord⟩ :=
    exists_of_mem_right (mapM_eq_ok.mp hread).flip (mem_map_of_mem (f := Prod.snd) hd)
  obtain ⟨file, rfl⟩ := isText_of_usageOf hrecord
  refine ⟨⟨file, isText_of_samePart hg rfl⟩, u, mem_flatten_of_mem hus hu, d.pattern, ?_, hpattern⟩
  rw [usageOf_record] at hrecord
  obtain rfl := Except.ok.inj hrecord
  rfl

theorem exists_usages_eq_ok (h : ∀ e ∈ es, ∃ file, e.file = .str file) :
    ∃ us, (es.foldl add []).usages = .ok us := by
  obtain ⟨uss, huss⟩ : ∃ uss, (es.foldl add []).mapM (fun e => usagesIn e.1 e.2) = .ok uss := by
    refine exists_mapM_eq_ok fun ⟨g, patterns⟩ hlog => ?_
    obtain ⟨⟨e, he, rfl⟩, hrecords⟩ := of_mem_foldl_add hlog
    obtain ⟨file, hfile⟩ := h e he
    rw [usagesIn_eq, hfile]
    refine exists_mapM_eq_ok fun r hr => ?_
    obtain ⟨x, hx, rfl⟩ := mem_map.mp hr
    obtain ⟨d, -, hd⟩ := hrecords x hx
    exact ⟨d.usageIn file, by rw [hd, usageOf_record]⟩
  rw [usages_eq, huss]
  exact ⟨_, rfl⟩

/-! ### When a log is loaded -/

/-- The object has a text for its file, data without parts for its pattern, and flags. -/
def IsUsable (v : Value) : Prop :=
  ∃ file pattern flags, v.get "file" = .ok (.str file) ∧ v.get "pattern" = .ok (.atom pattern) ∧
    v.get "flags" = .ok flags

theorem isUsable_iff {v : Value} :
    IsUsable v ↔ ∃ e, Entry.ofValue v = .ok e ∧ ∃ file, e.file = .str file := by
  constructor
  · rintro ⟨file, pattern, flags, hv⟩
    exact ⟨⟨.str file, pattern, flags⟩, Entry.ofValue_eq_ok.mpr hv, file, rfl⟩
  · rintro ⟨⟨_, pattern, flags⟩, he, file, rfl⟩
    exact ⟨file, pattern, flags, Entry.ofValue_eq_ok.mp he⟩

theorem of_usagesOf_eq_ok {vs : List Value} {us : List Usage} (h : usagesOf vs = .ok us) {v : Value}
    (hv : v ∈ vs) : ∃ e, Entry.ofValue v = .ok e ∧ (∃ file, e.file = .str file) ∧
      ∃ u ∈ us, ∃ a, u.pattern = some (.atom a) ∧ a.samePart e.pattern = true := by
  obtain ⟨es, hes, h⟩ := bind_eq_ok.mp h
  obtain ⟨e, he, hentry⟩ := exists_of_mem_right (mapM_eq_ok.mp hes).flip hv
  exact ⟨e, hentry, of_usages_eq_ok h he⟩

/-- Objects are loaded when all of them can be used. -/
theorem usagesOf_eq_ok_iff {vs : List Value} :
    (∃ us, usagesOf vs = .ok us) ↔ ∀ v ∈ vs, IsUsable v := by
  constructor
  · rintro ⟨us, hus⟩ v hv
    obtain ⟨e, he, hfile, -⟩ := of_usagesOf_eq_ok hus hv
    exact isUsable_iff.mpr ⟨e, he, hfile⟩
  · intro h
    obtain ⟨es, hes⟩ := exists_mapM_eq_ok (f := Entry.ofValue) fun v hv => by
      obtain ⟨e, he, -⟩ := isUsable_iff.mp (h v hv)
      exact ⟨e, he⟩
    have hfiles : ∀ e ∈ es, ∃ file, e.file = .str file := by
      intro e he
      obtain ⟨v, hv, hentry⟩ := exists_of_mem_right (mapM_eq_ok.mp hes) he
      obtain ⟨d, hd, hfile⟩ := isUsable_iff.mp (h v hv)
      obtain rfl := Except.ok.inj (hd.symm.trans hentry)
      exact hfile
    obtain ⟨us, hus⟩ := exists_usages_eq_ok hfiles
    refine ⟨us, ?_⟩
    rw [usagesOf, hes, ok_bind, hus]

/-! ### The last uses -/

theorem IsLast.mem (h : IsLast uses u) : u ∈ uses := by
  obtain ⟨before, after, rfl, -⟩ := h
  simp

theorem IsLast.eq {w : Use} (hu : IsLast uses u) (hw : IsLast uses w) (hpair : u.pair = w.pair) :
    u = w := by
  obtain ⟨before, after, rfl, hafter⟩ := hu
  obtain ⟨before', after', heq, hafter'⟩ := hw
  -- if one of them stood before the other, a use of its pair would follow it
  rcases append_eq_append_iff.mp heq with ⟨mid, rfl, hmid⟩ | ⟨mid, rfl, hmid⟩ <;>
    rcases mid with _ | ⟨m, mid⟩
  · exact (cons.inj hmid).1
  · obtain ⟨rfl, rfl⟩ := cons.inj hmid
    exact absurd hpair.symm (hafter w (by simp))
  · exact (cons.inj hmid).1.symm
  · obtain ⟨rfl, rfl⟩ := cons.inj hmid
    exact absurd hpair (hafter' u (by simp))

theorem mem_lastUses : u ∈ lastUses uses ↔ IsLast uses u := by
  constructor
  · exact isLast_of_mem_lastUses
  · intro hu
    have hpair : u.pair ∈ (lastUses uses).map Use.pair := by
      rw [map_pair_lastUses]
      exact mem_pairsOf.mpr ⟨u, hu.mem, rfl⟩
    obtain ⟨w, hw, heq⟩ := mem_map.mp hpair
    rwa [← (isLast_of_mem_lastUses hw).eq hu heq]

theorem IsLast.filter (h : IsLast uses u) {p : Use → Bool} (hp : p u = true) :
    IsLast (uses.filter p) u := by
  obtain ⟨before, after, rfl, hafter⟩ := h
  refine ⟨before.filter p, after.filter p, ?_, fun w hw => hafter w (mem_of_mem_filter hw)⟩
  rw [filter_append, filter_cons_of_pos hp]

theorem lastUses_filter_iff {p : Use → Bool} :
    lastUses uses = lastUses (uses.filter p) ↔
      pairsOf uses = pairsOf (uses.filter p) ∧ ∀ u, IsLast uses u → p u = true := by
  constructor
  · intro heq
    refine ⟨?_, fun u hu => ?_⟩
    · rw [← map_pair_lastUses, heq, map_pair_lastUses]
    · have hmem : u ∈ lastUses (uses.filter p) := heq ▸ mem_lastUses.mpr hu
      exact (mem_filter.mp (isLast_of_mem_lastUses hmem).mem).2
  · rintro ⟨hpairs, hlast⟩
    rw [← map_pair_lastUses, ← map_pair_lastUses] at hpairs
    -- two last uses with one pair are equal, as both are last among the uses that stay
    refine ext_getElem (by simpa using congrArg length hpairs) fun i hi hi' => ?_
    have hpair : (lastUses uses)[i].pair = (lastUses (uses.filter p))[i].pair := by
      have hat := congrArg (·[i]?) hpairs
      simpa [getElem?_map, hi, hi'] using hat
    have hu := isLast_of_mem_lastUses (getElem_mem hi)
    exact (hu.filter (hlast _ hu)).eq (isLast_of_mem_lastUses (getElem_mem hi')) hpair

/-! ### Without the malformed lines -/

def Use.hasTextFlags (u : Use) : Bool :=
  match u.flags with
  | .str _ => true
  | _ => false

/-- The line cannot be read, or reports a use whose flags are a text. -/
def isClean (line : String) : Bool :=
  match Json.ofText line with
  | .ok v => (Use.ofValue? v).any Use.hasTextFlags
  | .error _ => true

theorem isMalformed_of_isClean {line : String} (h : isClean line = true) :
    isMalformed line = false := by
  rw [isMalformed]
  rw [isClean] at h
  cases hread : ofText line with
  | error f => rfl
  | ok v =>
    rw [hread] at h
    cases hu : Use.ofValue? v with
    | none => simp [hu] at h
    | some u => simp [hu]

theorem usesOn_filter_isClean (lines : List String) :
    usesOn (lines.filter isClean) = (usesOn lines).filter Use.hasTextFlags := by
  rw [usesOn, usesOn, objectsOn, objectsOn, filterMap_filterMap, filterMap_filter,
    filterMap_filterMap, filter_filterMap]
  refine filterMap_congr fun line _ => ?_
  rw [isClean]
  cases ofText line with
  | error f => rfl
  | ok v =>
    show (if (Use.ofValue? v).any Use.hasTextFlags = true then Use.ofValue? v else none) =
      (Use.ofValue? v).filter Use.hasTextFlags
    cases Use.ofValue? v with
    | none | some => rfl

/-- A malformed line that does not stop the load leaves a pattern that is no text. -/
theorem usagesOf_ne_of_malformed {lines : List String} {line : String} (hline : line ∈ lines)
    (hmalformed : isMalformed line = true) (uses : List Use) :
    usagesOf (objectsOn lines) ≠ .ok (uses.map Use.usage) := by
  intro h
  cases hread : ofText line with
  | error f => simp [isMalformed, hread] at hmalformed
  | ok v =>
    obtain ⟨⟨_, pattern, flags⟩, he, ⟨file, rfl⟩, u, hu, a, ha, hsame⟩ :=
      of_usagesOf_eq_ok h (mem_objectsOn.mpr ⟨line, hline, hread⟩)
    obtain ⟨w, -, rfl⟩ := mem_map.mp hu
    obtain rfl : Atom.str w.pattern = a := Value.atom.inj (Option.some.inj ha)
    obtain rfl := isText_of_samePart hsame rfl
    rw [isMalformed, hread] at hmalformed
    simp [Use.ofValue?_of_ofValue he] at hmalformed

theorem Use.usage_injective : Function.Injective Use.usage := by
  rintro ⟨file, pattern, flags⟩ ⟨file', pattern', flags'⟩ h
  simp [Use.usage, Usage.make] at h
  simp [h]

/-- A log is loaded when every object on its lines has a text for its file, data without parts for its
pattern, and flags. Without the lines that can be read and report no use with texts throughout, it is
always loaded. The outcome is the same only when no line is malformed, the files and patterns keep
their order, and every last use has a text for its flags. -/
theorem load_tolerates_iff {h : Host} {path : String} {c : Content} {lines : List String}
    (hc : h.Holds path c) (hlines : c.lines = (lines, none)) :
    ((∃ us, (load path).run h = (.ok us, h)) ↔
      ∀ line ∈ lines, ∀ v, Json.ofText line = .ok v → IsUsable v) ∧
    ∀ (h' : Host) (path' : String) (c' : Content), h'.Holds path' c' →
      c'.lines = (lines.filter isClean, none) →
      (∃ us, (load path').run h' = (.ok us, h')) ∧
      (((load path).run h).1 = ((load path').run h').1 ↔
        (∀ line ∈ lines, isMalformed line = false) ∧
        pairsOf (usesOn lines) = pairsOf (usesOn (lines.filter isClean)) ∧
        ∀ u, IsLast (usesOn lines) u → u.hasTextFlags = true) := by
  have hrun := load_run_eq hc hlines
  constructor
  · have hload : (∃ us, (load path).run h = (.ok us, h)) ↔
        ∃ us, usagesOf (objectsOn lines) = .ok us := by
      rw [hrun]
      constructor
      · rintro ⟨us, hus⟩
        exact ⟨us, congrArg Prod.fst hus⟩
      · rintro ⟨us, hus⟩
        exact ⟨us, congrArg (·, h) hus⟩
    rw [hload, usagesOf_eq_ok_iff]
    constructor
    · intro hall line hline v hv
      exact hall v (mem_objectsOn.mpr ⟨line, hline, hv⟩)
    · intro hall v hv
      obtain ⟨line, hline, hread⟩ := mem_objectsOn.mp hv
      exact hall line hline v hread
  · intro h' path' c' hc' hlines'
    have hclean : usagesOf (objectsOn (lines.filter isClean)) =
        .ok ((lastUses (usesOn (lines.filter isClean))).map Use.usage) :=
      usagesOf_objectsOn fun line hline => isMalformed_of_isClean (mem_filter.mp hline).2
    have hrun' := load_run_eq hc' hlines'
    rw [hclean] at hrun'
    refine ⟨⟨_, hrun'⟩, ?_⟩
    rw [hrun, hrun', usesOn_filter_isClean, ← lastUses_filter_iff]
    constructor
    · intro heq
      have hsound : ∀ line ∈ lines, isMalformed line = false := by
        intro line hline
        by_contra hmalformed
        exact usagesOf_ne_of_malformed hline (by simpa using hmalformed) _ heq
      refine ⟨hsound, ?_⟩
      rw [usagesOf_objectsOn hsound] at heq
      exact map_injective_iff.mpr Use.usage_injective (Except.ok.inj heq)
    · rintro ⟨hsound, heq⟩
      rw [usagesOf_objectsOn hsound, heq]

/-! ### Logs with one malformed line -/

/-- The members of an object whose pattern is null. -/
def nullMembers : Members :=
  [("file", .str "A.java"), ("pattern", .null), ("flags", .str "")]

theorem ofText_nullMembers : ofText (lineOf nullMembers ++ "\n") = .ok (.object nullMembers) :=
  ofText_lineOf (by simp [nullMembers]) (by simp [nullMembers, nestingLimit])

def oneUse : List String := [lineOf (useMembers "A.java" "y" "")]

theorem isOneLine_of_mem_oneUse (ms : Members) :
    ∀ line ∈ lineOf ms :: oneUse, Text.IsOneLine line := by
  simp [oneUse, isOneLine_lineOf]

theorem lines_oneUse : (Content.text (Text.unlines oneUse)).lines = (oneUse.map (· ++ "\n"), none) :=
  Content.lines_unlines (forall_mem_of_forall_mem_cons (isOneLine_of_mem_oneUse []))

/-- The pattern that is null is listed beside the other one. -/
theorem load_tolerates_null :
    (∃ us, (load "log").run (hostWith (lineOf nullMembers :: oneUse)) =
      (.ok us, hostWith (lineOf nullMembers :: oneUse))) ∧
    (∃ us, (load "log").run (hostWith oneUse) = (.ok us, hostWith oneUse)) ∧
    ((load "log").run (hostWith (lineOf nullMembers :: oneUse))).1 ≠
      ((load "log").run (hostWith oneUse)).1 := by
  obtain ⟨hload, htolerates⟩ := load_tolerates_iff (holds_hostWith (lineOf nullMembers :: oneUse))
    (Content.lines_unlines (isOneLine_of_mem_oneUse nullMembers))
  have hmalformed : isMalformed (lineOf nullMembers ++ "\n") = true := by
    rw [isMalformed, ofText_nullMembers]
    rfl
  have hclean : ((lineOf nullMembers :: oneUse).map (· ++ "\n")).filter isClean =
      oneUse.map (· ++ "\n") := by
    have hnull : isClean (lineOf nullMembers ++ "\n") = false := by
      rw [isClean, ofText_nullMembers]
      rfl
    have huse : isClean (lineOf (useMembers "A.java" "y" "") ++ "\n") = true := by
      rw [isClean, ofText_useMembers]
      rfl
    simp only [oneUse, map_cons, map_nil, filter_cons, hnull, huse,
      Bool.false_eq_true, if_true, if_false, filter_nil]
  obtain ⟨hothers, hsame⟩ := htolerates (hostWith oneUse) "log" _ (holds_hostWith oneUse)
    (by rw [hclean, lines_oneUse])
  refine ⟨hload.mpr ?_, hothers, fun heq => ?_⟩
  · simp only [oneUse, map_cons, map_nil, forall_mem_cons, ofText_nullMembers,
      ofText_useMembers, Except.ok.injEq, forall_eq', not_mem_nil, false_imp_iff, implies_true,
      and_true]
    exact ⟨⟨"A.java", .null, .str "", rfl, rfl, rfl⟩, ⟨"A.java", .str "y", .str "", rfl, rfl, rfl⟩⟩
  · have hsound := (hsame.mp heq).1 _ (mem_map_of_mem mem_cons_self)
    rw [hmalformed] at hsound
    cases hsound

/-- A line without flags takes the other one with it. -/
theorem load_without_flags :
    (load "log").run
        (hostWith (lineOf [("file", .str "A.java"), ("pattern", .str "x")] :: oneUse)) =
      (.error (.missingKey (.str "flags")),
        hostWith (lineOf [("file", .str "A.java"), ("pattern", .str "x")] :: oneUse)) ∧
    (load "log").run (hostWith oneUse) =
      (.ok [Use.usage ⟨"A.java", "y", .str ""⟩], hostWith oneUse) := by
  have hline : Json.ofText (lineOf [("file", .str "A.java"), ("pattern", .str "x")] ++ "\n") =
      .ok (.object [("file", .str "A.java"), ("pattern", .str "x")]) :=
    ofText_lineOf (by simp) (by simp [Json.nestingLimit])
  have huse : objectsOn (oneUse.map (· ++ "\n")) = [.object (useMembers "A.java" "y" "")] :=
    objectsOn_cons_of_ok (ofText_useMembers _ _ _) []
  constructor
  · rw [load_run_eq (holds_hostWith _) (Content.lines_unlines (isOneLine_of_mem_oneUse _)),
      map_cons, objectsOn_cons_of_ok hline, huse]
    rfl
  · rw [load_run_eq (holds_hostWith _) lines_oneUse, huse]
    rfl

end RegexCorpus.PatternLog
