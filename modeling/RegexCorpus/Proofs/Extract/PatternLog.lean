import RegexCorpus.Extract.PatternLog
import RegexCorpus.Proofs.Host.Files
import RegexCorpus.Proofs.Json.Line
import RegexCorpus.Proofs.Table

/-!
# The uses in a log of patterns

A log names files and patterns in any order and as often as they are used. Line by line the uses go to
a table of files, each with a table of its patterns; then the tables are read out. What comes out has
each pattern of a file once, with the flags of its last use.
-/

namespace RegexCorpus.PatternLog
open List Outcome Atom Json

variable {lines : List String} {v : Value} {uses : List Use}

/-! ### Entries of a log -/

structure Entry where
  file : Atom
  pattern : Atom
  flags : Value

namespace Entry

/-- The entry of an object: file and pattern have to be data without parts. -/
def ofValue (v : Value) : Outcome Entry := do
  let file ← (← v.get "file").toKey
  let pattern ← v.get "pattern"
  let flags ← v.get "flags"
  let key ← pattern.toKey
  return ⟨file, key, flags⟩

def record (e : Entry) : Value := .object [("pattern", .atom e.pattern), ("flags", e.flags)]

def usageIn (file : String) (e : Entry) : Usage :=
  .make (.atom e.pattern) e.flags .null .null (.str file) (.str (Path.basename file))

theorem ofValue_eq_ok {v : Value} {e : Entry} :
    ofValue v = .ok e ↔ v.get "file" = .ok (.atom e.file) ∧ v.get "pattern" = .ok (.atom e.pattern) ∧
      v.get "flags" = .ok e.flags := by
  have hkey {w : Value} {a : Atom} : w.toKey = .ok a ↔ w = .atom a := by
    cases w <;> simp [Value.toKey]
  constructor
  · intro h
    obtain ⟨key, hfile, h⟩ := bind_eq_ok.mp h
    obtain ⟨a, ha, h⟩ := bind_eq_ok.mp h
    obtain ⟨pattern, hpattern, h⟩ := bind_eq_ok.mp h
    obtain ⟨flags, hflags, h⟩ := bind_eq_ok.mp h
    obtain ⟨b, hb, h⟩ := bind_eq_ok.mp h
    obtain rfl := pure_eq_ok.mp h
    rw [hkey] at ha hb
    subst ha hb
    exact ⟨hfile, hpattern, hflags⟩
  · rintro ⟨hfile, hpattern, hflags⟩
    rw [ofValue, hfile, hpattern, hflags]
    rfl

end Entry

variable (log : PatternLog)

def add (log : PatternLog) (e : Entry) : PatternLog :=
  log.set e.file (Entries.set e.pattern e.record (log.patternsOf e.file))

theorem addUse_eq (v : Value) : log.addUse v = do return log.add (← Entry.ofValue v) := by
  unfold addUse Entry.ofValue
  rcases v.get "file" with e | file
  · rfl
  cases file with
  | list | dict => rfl
  | atom a =>
    rcases v.get "pattern" with e | pattern
    · rfl
    rcases v.get "flags" with e | flags
    · rfl
    cases pattern <;> rfl

def objectsOn (lines : List String) : List Value :=
  lines.filterMap fun line => (Json.ofText line).toOption

theorem mem_objectsOn : v ∈ objectsOn lines ↔ ∃ line ∈ lines, ofText line = .ok v := by
  have hoption {o : Outcome Value} : o.toOption = some v ↔ o = .ok v := by
    cases o <;> simp [Except.toOption]
  simp only [objectsOn, mem_filterMap, hoption]

theorem objectsOn_cons_of_ok {line : String} (h : ofText line = .ok v) (lines : List String) :
    objectsOn (line :: lines) = v :: objectsOn lines := by
  rw [objectsOn, filterMap_cons_some (by rw [h]; rfl)]
  rfl

theorem objectsOn_cons_of_error {line : String} {f : Fault} (h : ofText line = .error f)
    (lines : List String) : objectsOn (line :: lines) = objectsOn lines := by
  rw [objectsOn, filterMap_cons_none (by rw [h]; rfl)]
  rfl

/-- The uses that objects report, or the fault of the first that has no entry. -/
def usagesOf (vs : List Value) : Outcome (List Usage) := do
  let es ← vs.mapM Entry.ofValue
  (es.foldl add []).usages

theorem ofLines_eq (lines : List String) :
    ofLines lines = do return ((← (objectsOn lines).mapM Entry.ofValue).foldl add []) := by
  have hlog (log : PatternLog) : lines.foldlM addLine log =
      do return ((← (objectsOn lines).mapM Entry.ofValue).foldl add log) := by
    induction lines generalizing log with
    | nil => rfl
    | cons line lines ih =>
      rw [foldlM_cons, addLine]
      cases hline : ofText line with
      | error f => rw [objectsOn_cons_of_error hline, ok_bind, ih]
      | ok v =>
        rw [objectsOn_cons_of_ok hline, mapM_cons]
        dsimp only
        rw [addUse_eq]
        cases Entry.ofValue v with
        | error f => rfl
        | ok e =>
          rw [ok_bind]
          change foldlM addLine (log.add e) lines = _
          rw [ih]
          cases (objectsOn lines).mapM Entry.ofValue <;> rfl
  exact hlog []

/-- A log is loaded from the objects on its lines; lines that cannot be read do not count. -/
theorem load_run_eq {h : Host} {path : String} {c : Content} (hc : h.Holds path c)
    (hlines : c.lines = (lines, none)) : (load path).run h = (usagesOf (objectsOn lines), h) := by
  rw [load, run_bind_of_ok hc.content, hlines]
  dsimp only
  rw [ofLines_eq, usagesOf]
  cases (objectsOn lines).mapM Entry.ofValue <;> rfl

/-! ### The table of files -/

theorem set_eq_upsert (file : Atom) (patterns : Entries) (log : PatternLog) :
    log.set file patterns = upsert file patterns log := by
  induction log with
  | nil => rfl
  | cons e log ih => rw [set, upsert, ih]

theorem patternsOf_set (file g : Atom) (patterns : Entries) :
    patternsOf (log.set file patterns) g =
      if file.samePart g then patterns else patternsOf log g := by
  rw [patternsOf, set_eq_upsert, find?_upsert]
  split_ifs <;> rfl

theorem patternsOf_foldl_add (es : List Entry) (file : Atom) :
    patternsOf (es.foldl add []) file =
      Entries.ofPairs ((es.filter (·.file.samePart file)).map fun e => (e.pattern, e.record)) := by
  induction es using reverseRecOn generalizing file with
  | nil => rfl
  | append_singleton es e ih =>
    have hsame (hfile : e.file.samePart file = true) (d : Entry) :
        d.file.samePart e.file = d.file.samePart file := by
      rw [samePart_comm, samePart_congr hfile, samePart_comm]
    rw [foldl_append, foldl_cons, foldl_nil, add, patternsOf_set, filter_append, map_append]
    by_cases hfile : e.file.samePart file = true
    · have hone : [e].filter (·.file.samePart file) = [e] := by simp [hfile]
      rw [if_pos hfile, ih, hone, map_singleton, Entries.ofPairs_concat]
      simp only [hsame hfile]
    · have hnone : [e].filter (·.file.samePart file) = [] := by simp [hfile]
      rw [if_neg hfile, ih, hnone, map_nil, append_nil]

/-! ### Reading out a table -/

def usagesIn (file : Atom) (patterns : Entries) : Outcome (List Usage) :=
  (FileReport.make (.atom file) (.str "XXX") (.bool true) (.list (patterns.map (·.2)))).usages

theorem usages_eq : log.usages = do return (← log.mapM fun e => usagesIn e.1 e.2).flatten := rfl

theorem usagesIn_text (file : String) (es : List Entry) (key : Entry → Atom) :
    usagesIn (.str file) (es.map fun e => (key e, e.record)) = .ok (es.map (Entry.usageIn file)) := by
  have hvalues : (es.map fun e => (key e, e.record)).map Prod.snd = es.map Entry.record := by
    rw [map_map]
    rfl
  rw [usagesIn, hvalues]
  refine mapM_eq_ok.mpr ?_
  rw [forall₂_map_left_iff, forall₂_map_right_iff]
  exact forall₂_same.mpr fun e _ => rfl

/-! ### Uses -/

structure Use where
  file : String
  pattern : String
  flags : Value

namespace Use

/-- The use that an object reports: its file and its pattern are texts, and there are flags. -/
def ofValue? (v : Value) : Option Use :=
  match v.get "file", v.get "pattern", v.get "flags" with
  | .ok (.str file), .ok (.str pattern), .ok flags => some { file, pattern, flags }
  | _, _, _ => none

def entry (u : Use) : Entry := ⟨.str u.file, .str u.pattern, u.flags⟩

def pair (u : Use) : String × String := (u.file, u.pattern)

/-- The use as a record, without inputs and without a registry. -/
def usage (u : Use) : Usage :=
  .make (.str u.pattern) u.flags .null .null (.str u.file) (.str (Path.basename u.file))

theorem ofValue_of_ofValue? {v : Value} {u : Use} (h : ofValue? v = some u) :
    Entry.ofValue v = .ok u.entry := by
  unfold ofValue? at h
  split at h
  · next hfile hpattern hflags =>
    cases h
    exact Entry.ofValue_eq_ok.mpr ⟨hfile, hpattern, hflags⟩
  · cases h

theorem ofValue?_of_ofValue {v : Value} {file pattern : String} {flags : Value}
    (h : Entry.ofValue v = .ok ⟨.str file, .str pattern, flags⟩) :
    ofValue? v = some ⟨file, pattern, flags⟩ := by
  obtain ⟨hfile, hpattern, hflags⟩ := Entry.ofValue_eq_ok.mp h
  rw [ofValue?, hfile, hpattern, hflags]

end Use

/-- The line can be read and yet reports no use. -/
def isMalformed (line : String) : Bool :=
  match Json.ofText line with
  | .ok v => (Use.ofValue? v).isNone
  | .error _ => false

def isReadable (line : String) : Bool := (Json.ofText line).toOption.isSome

def usesOn (lines : List String) : List Use := (objectsOn lines).filterMap Use.ofValue?

def usesIn (file : String) (uses : List Use) : List Use := uses.filter (·.file = file)

/-- The files of uses, in the order of their first appearance. -/
def filesOf (uses : List Use) : List String := (uses.map Use.file).eraseDups

/-- Files with patterns: file by file, both in the order of their first appearance. -/
def pairsOf (uses : List Use) : List (String × String) :=
  (filesOf uses).flatMap fun file => ((usesIn file uses).map Use.pattern).eraseDups.map (file, ·)

def IsLast (uses : List Use) (u : Use) : Prop :=
  ∃ before after, uses = before ++ u :: after ∧ ∀ w ∈ after, w.pair ≠ u.pair

def lastUses (uses : List Use) : List Use :=
  (filesOf uses).flatMap fun file => lastsBy Use.pattern (usesIn file uses)

theorem objectsOn_filter_isReadable (lines : List String) :
    objectsOn (lines.filter isReadable) = objectsOn lines := by
  rw [objectsOn, objectsOn, filterMap_filter]
  refine filterMap_congr fun line _ => ?_
  rw [isReadable]
  cases ofText line <;> rfl

theorem exists_use_of_not_malformed (h : ∀ line ∈ lines, isMalformed line = false)
    (hv : v ∈ objectsOn lines) : ∃ u, Use.ofValue? v = some u := by
  obtain ⟨line, hline, hread⟩ := mem_objectsOn.mp hv
  have hsound := h line hline
  rw [isMalformed, hread] at hsound
  exact Option.isSome_iff_exists.mp (by simpa using hsound)

/-- Objects that all report uses have the entries of these. -/
theorem mapM_ofValue {vs : List Value} (h : ∀ v ∈ vs, ∃ u, Use.ofValue? v = some u) :
    vs.mapM Entry.ofValue = .ok ((vs.filterMap Use.ofValue?).map Use.entry) := by
  induction vs with
  | nil => rfl
  | cons v vs ih =>
    rw [forall_mem_cons] at h
    obtain ⟨⟨u, hu⟩, hvs⟩ := h
    rw [mapM_cons, Use.ofValue_of_ofValue? hu, ok_bind, ih hvs, ok_bind, filterMap_cons_some hu]
    rfl

/-! ### The table of uses -/

theorem ofPairs_usesIn (file : String) (uses : List Use) :
    Entries.ofPairs (((uses.map Use.entry).filter (·.file.samePart (.str file))).map
        fun e => (e.pattern, e.record)) =
      ((lastsBy Use.pattern (usesIn file uses)).map Use.entry).map
        fun e => (e.pattern, e.record) := by
  have huses : ((uses.map Use.entry).filter (·.file.samePart (.str file))).map
      (fun e => (e.pattern, e.record)) =
        (usesIn file uses).map fun u => (.str u.pattern, u.entry.record) := by
    rw [filter_map, map_map, usesIn]
    refine congrArg _ (filter_congr fun u _ => ?_)
    rw [Function.comp_apply, samePart_str]
    simp [Use.entry]
  rw [huses, Entries.ofPairs_map, map_map]
  rfl

theorem foldl_add_uses (uses : List Use) :
    (uses.map Use.entry).foldl add [] = tabulate (filesOf uses) fun file =>
      ((lastsBy Use.pattern (usesIn file uses)).map Use.entry).map
        fun e => (e.pattern, e.record) := by
  -- the last use changes the table of its file, which is then that of all uses
  simp only [← ofPairs_usesIn, ← patternsOf_foldl_add]
  induction uses using reverseRecOn with
  | nil => rfl
  | append_singleton uses u ih =>
    have hpatterns : (fun file => patternsOf (((uses ++ [u]).map Use.entry).foldl add []) (.str file)) =
        Function.update (fun file => patternsOf ((uses.map Use.entry).foldl add []) (.str file)) u.file
          (Entries.set u.entry.pattern u.entry.record
            (patternsOf ((uses.map Use.entry).foldl add []) u.entry.file)) := by
      funext file
      rw [map_append, map_singleton, foldl_append, foldl_cons, foldl_nil, add,
        patternsOf_set, Use.entry, samePart_str]
      by_cases hfile : file = u.file
      · rw [hfile, Function.update_self, decide_eq_true rfl, if_pos rfl]
      · rw [Function.update_of_ne hfile, decide_eq_false (by simpa using Ne.symm hfile),
          if_neg Bool.false_ne_true]
    have hfiles : filesOf (uses ++ [u]) = noted (filesOf uses) u.file := by
      rw [filesOf, map_append, map_singleton, eraseDups_concat, filesOf]
    have hnodup : (filesOf uses).Nodup := nodup_eraseDups _
    rw [hpatterns, hfiles, ← upsert_tabulate hnodup, ← ih, map_append,
      map_singleton, foldl_append, foldl_cons, foldl_nil, add, set_eq_upsert]
    rfl

theorem file_of_mem_lastsBy {file : String} {u : Use}
    (hu : u ∈ lastsBy Use.pattern (usesIn file uses)) : u.file = file := by
  obtain ⟨k, hk⟩ := exists_lastBy?_of_mem hu
  obtain ⟨before, after, huses, -⟩ := split_of_lastBy? hk
  have hmem : u ∈ usesIn file uses := by simp [huses]
  simpa using (mem_filter.mp hmem).2

theorem usages_tabulate (uses : List Use) :
    ((uses.map Use.entry).foldl add []).usages = .ok ((lastUses uses).map Use.usage) := by
  have hfiles : (tabulate (filesOf uses) fun file =>
      ((lastsBy Use.pattern (usesIn file uses)).map Use.entry).map fun e => (e.pattern, e.record)).mapM
        (fun e => usagesIn e.1 e.2) =
      .ok ((filesOf uses).map fun file =>
        (lastsBy Use.pattern (usesIn file uses)).map Use.usage) := by
    refine mapM_eq_ok.mpr ?_
    rw [tabulate, forall₂_map_left_iff, forall₂_map_right_iff]
    refine forall₂_same.mpr fun file _ => ?_
    rw [usagesIn_text, map_map]
    refine congrArg Except.ok (map_congr_left fun u hu => ?_)
    rw [Use.usage, file_of_mem_lastsBy hu]
    rfl
  rw [usages_eq, foldl_add_uses, hfiles, ok_bind, lastUses, map_flatMap, flatMap]
  rfl

theorem usagesOf_objectsOn (h : ∀ line ∈ lines, isMalformed line = false) :
    usagesOf (objectsOn lines) = .ok ((lastUses (usesOn lines)).map Use.usage) := by
  rw [usagesOf, mapM_ofValue fun v hv => exists_use_of_not_malformed h hv, ok_bind]
  exact usages_tabulate _

/-! ### What is listed -/

theorem map_pair_lastUses (uses : List Use) : (lastUses uses).map Use.pair = pairsOf uses := by
  rw [lastUses, pairsOf, map_flatMap]
  refine flatMap_congr fun file _ => ?_
  rw [← map_key_lastsBy, map_map]
  refine map_congr_left fun u hu => ?_
  rw [Use.pair, file_of_mem_lastsBy hu]
  rfl

theorem mem_pairsOf {p : String × String} : p ∈ pairsOf uses ↔ ∃ u ∈ uses, u.pair = p := by
  obtain ⟨file, pattern⟩ := p
  simp only [pairsOf, filesOf, usesIn, mem_flatMap, mem_map, mem_eraseDups,
    mem_filter, decide_eq_true_eq, Use.pair, Prod.mk.injEq]
  constructor
  · rintro ⟨_, -, _, ⟨u, ⟨hu, rfl⟩, rfl⟩, rfl, rfl⟩
    exact ⟨u, hu, rfl, rfl⟩
  · rintro ⟨u, hu, rfl, rfl⟩
    exact ⟨u.file, ⟨u, hu, rfl⟩, u.pattern, ⟨u, ⟨hu, rfl⟩, rfl⟩, rfl, rfl⟩

theorem nodup_pairsOf (uses : List Use) : (pairsOf uses).Nodup := by
  refine nodup_flatMap.mpr ⟨fun file _ => ?_, ?_⟩
  · exact (nodup_eraseDups _).map fun _ _ heq => (Prod.mk.inj heq).2
  · refine (nodup_eraseDups _).imp fun hne => ?_
    intro p hp hp'
    obtain ⟨_, -, rfl⟩ := mem_map.mp hp
    obtain ⟨_, -, heq⟩ := mem_map.mp hp'
    exact hne (Prod.mk.inj heq).1.symm

theorem isLast_of_mem_lastUses {u : Use} (hu : u ∈ lastUses uses) : IsLast uses u := by
  obtain ⟨file, -, hu⟩ := mem_flatMap.mp hu
  obtain ⟨k, hk⟩ := exists_lastBy?_of_mem hu
  obtain ⟨before, after, hsplit, hafter⟩ := split_of_lastBy? hk
  obtain ⟨before', rest, rfl, -, hrest⟩ := filter_eq_append_iff.mp hsplit
  obtain ⟨between, after', rfl, -, -, rfl⟩ := filter_eq_cons_iff.mp hrest
  refine ⟨before' ++ between, after', by simp, ?_⟩
  intro w hw heq
  obtain ⟨hfile, hpattern⟩ := Prod.mk.inj heq
  refine hafter w (mem_filter.mpr ⟨hw, ?_⟩) hpattern
  rw [hfile]
  exact decide_eq_true (file_of_mem_lastsBy hu)

/-- A log without malformed lines lists each pattern of a file once: the files in the order of their
first appearance, the patterns of a file likewise, each with the flags of its last use. Lines that
cannot be read make no difference. -/
theorem load_lists {h : Host} {path : String} {c : Content} {lines : List String}
    (hc : h.Holds path c) (hlines : c.lines = (lines, none))
    (hsound : ∀ line ∈ lines, isMalformed line = false) :
    (∃ last : List Use, (load path).run h = (.ok (last.map Use.usage), h) ∧
      last.map Use.pair = pairsOf (usesOn lines) ∧ (last.map Use.pair).Nodup ∧
      (∀ u ∈ usesOn lines, u.pair ∈ last.map Use.pair) ∧ ∀ u ∈ last, IsLast (usesOn lines) u) ∧
    ∀ (h' : Host) (path' : String) (c' : Content) (lines' : List String), h'.Holds path' c' →
      c'.lines = (lines', none) → lines'.filter isReadable = lines.filter isReadable →
      ((load path').run h').1 = ((load path).run h).1 := by
  have hrun := load_run_eq hc hlines
  have hpairs := map_pair_lastUses (usesOn lines)
  refine ⟨⟨lastUses (usesOn lines), ?_, hpairs, ?_, ?_, fun u => isLast_of_mem_lastUses⟩, ?_⟩
  · rw [hrun, usagesOf_objectsOn hsound]
  · rw [hpairs]
    exact nodup_pairsOf _
  · intro u hu
    rw [hpairs]
    exact mem_pairsOf.mpr ⟨u, hu, rfl⟩
  · intro h' path' c' lines' hc' hlines' hreadable
    rw [load_run_eq hc' hlines', hrun, ← objectsOn_filter_isReadable lines', hreadable,
      objectsOn_filter_isReadable]

/-! ### A log of two files -/

def hostWith (lines : List String) : Host where
  files := .folder [("log", .file (.text (Text.unlines lines)))]

theorem holds_hostWith (lines : List String) :
    (hostWith lines).Holds "log" (.text (Text.unlines lines)) := ⟨["log"], rfl⟩

def lineOf (ms : Members) : String := Json.render (.object ms)

theorem isOneLine_lineOf (ms : Members) : Text.IsOneLine (lineOf ms) := by
  apply isOneLine_of_isPlain
  rw [lineOf, render, String.toList_ofList]
  exact isPlain_writeValue _

theorem ofText_lineOf {ms : Members} (hjson : Value.IsJson (.object ms))
    (hlimit : Value.Within nestingLimit (.object ms)) :
    ofText (lineOf ms ++ "\n") = .ok (.object ms) := by
  have htext := ofText_render hjson hlimit "" "\n" (by simp) (by simp; decide)
  rwa [String.empty_append] at htext

/-- The object of a use whose flags are a text. -/
def useMembers (file pattern flags : String) : Members :=
  [("file", .str file), ("pattern", .str pattern), ("flags", .str flags)]

theorem ofText_useMembers (file pattern flags : String) :
    ofText (lineOf (useMembers file pattern flags) ++ "\n") =
      .ok (.object (useMembers file pattern flags)) :=
  ofText_lineOf (by simp [useMembers]) (by simp [useMembers, nestingLimit])

/-- Two files in turn, a pattern that is used again with other flags, and a line that is no object. -/
def twoFiles : List String :=
  [lineOf (useMembers "b/y.js" "q" ""), "no object", lineOf (useMembers "x.js" "q" "g"),
    lineOf (useMembers "b/y.js" "p" ""), lineOf (useMembers "b/y.js" "q" "i")]

theorem objectsOn_twoFiles : objectsOn (twoFiles.map (· ++ "\n")) =
    [.object (useMembers "b/y.js" "q" ""), .object (useMembers "x.js" "q" "g"),
      .object (useMembers "b/y.js" "p" ""), .object (useMembers "b/y.js" "q" "i")] := by
  have hother : ofText ("no object" ++ "\n") = .error .requirement := by rfl
  simp only [twoFiles, map_cons, map_nil, objectsOn_cons_of_ok (ofText_useMembers _ _ _),
    objectsOn_cons_of_error hother]
  rfl

theorem load_lists_twoFiles :
    (∀ line ∈ twoFiles.map (· ++ "\n"), isMalformed line = false) ∧
    ∃ last : List Use,
      (load "log").run (hostWith twoFiles) = (.ok (last.map Use.usage), hostWith twoFiles) ∧
      last.map Use.pair = [("b/y.js", "q"), ("b/y.js", "p"), ("x.js", "q")] ∧
      ∀ u ∈ last, IsLast [⟨"b/y.js", "q", .str ""⟩, ⟨"x.js", "q", .str "g"⟩,
        ⟨"b/y.js", "p", .str ""⟩, ⟨"b/y.js", "q", .str "i"⟩] u := by
  have hone : ∀ line ∈ twoFiles, Text.IsOneLine line := by
    simp only [twoFiles, forall_mem_cons, not_mem_nil, false_imp_iff, implies_true,
      and_true, isOneLine_lineOf, true_and]
    exact ⟨by decide, by decide⟩
  have huse (file pattern flags : String) :
      isMalformed (lineOf (useMembers file pattern flags) ++ "\n") = false := by
    rw [isMalformed, ofText_useMembers]
    rfl
  have hother : isMalformed ("no object" ++ "\n") = false := by decide
  have hsound : ∀ line ∈ twoFiles.map (· ++ "\n"), isMalformed line = false := by
    rw [forall_mem_map]
    simp only [twoFiles, forall_mem_cons, not_mem_nil, false_imp_iff, implies_true,
      and_true, huse, hother]
  have huses : usesOn (twoFiles.map (· ++ "\n")) =
      [⟨"b/y.js", "q", .str ""⟩, ⟨"x.js", "q", .str "g"⟩, ⟨"b/y.js", "p", .str ""⟩,
        ⟨"b/y.js", "q", .str "i"⟩] := by
    rw [usesOn, objectsOn_twoFiles]
    rfl
  obtain ⟨⟨last, hrun, hpairs, -, -, hlast⟩, -⟩ :=
    load_lists (holds_hostWith twoFiles) (Content.lines_unlines hone) hsound
  rw [huses] at hpairs hlast
  exact ⟨hsound, last, hrun, hpairs.trans (by decide), hlast⟩

end RegexCorpus.PatternLog
