import RegexCorpus.Measure.Program
import RegexCorpus.Proofs.Host.Files
import RegexCorpus.Proofs.Record.Regex
import RegexCorpus.Record.File

/-!
# Files of patterns

Patterns that are written to a file are loaded from it again, one pattern a line and in the same
order. Lines from which no pattern can be read make no difference, wherever they stand.
-/

namespace RegexCorpus
open List Text

/-! ### Writing -/

variable {path : String} {room n : ℕ}

theorem AnyRecord.appendAll_run {rs : List AnyRecord} {lines : List String}
    (hlines : List.Forall₂ (fun r line => r.toLine n = .ok line) rs lines) (done : List String)
    {h : Host} (hh : h.Holds path (.text (unlines done))) :
    ∃ h', (appendAll path n (rs.map .record)).run h = (.ok (), h') ∧
      h'.Holds path (.text (unlines (done ++ lines))) := by
  induction hlines generalizing done h with
  | nil => exact ⟨h, rfl, by rwa [append_nil]⟩
  | @cons r line rs lines hline _ ih =>
    obtain ⟨h', hrun, hh'⟩ := Act.appendFile_run hh (line ++ "\n")
    rw [Content.append, ← unlines_concat] at hh'
    obtain ⟨h'', hrest, hh''⟩ := ih (done ++ [line]) hh'
    rw [append_assoc, singleton_append] at hh''
    refine ⟨h'', ?_, hh''⟩
    rw [map_cons, appendAll, run_lift_bind hline]
    exact run_bind_eq_ok.mpr ⟨(), h', hrun, hrest⟩

theorem AnyRecord.writeAll_run {rs : List AnyRecord} {lines : List String}
    (hlines : List.Forall₂ (fun r line => r.toLine n = .ok line) rs lines) {h : Host}
    (hpath : h.CanWrite path) :
    ∃ h', (writeAll path (rs.map .record) n).run h = (.ok (), h') ∧
      h'.Holds path (.text (unlines lines)) := by
  obtain ⟨h₁, hrun, hh₁⟩ := Act.writeFile_run hpath ""
  obtain ⟨h', hrest, hh'⟩ := appendAll_run hlines [] hh₁
  exact ⟨h', run_bind_eq_ok.mpr ⟨(), h₁, hrun, hrest⟩, hh'⟩

namespace Measure

variable {ls ts : List String}

/-! ### Loading -/

theorem read_trim (l : String) (n : ℕ) : Regex.read (.str (trim l)) n = Regex.read (.str l) n := by
  rw [Regex.read, Regex.read, ofLine_str, ofLine_str, Json.ofText, Json.ofText, trim_trim]

theorem regexOf?_empty (share : Bool) (n : ℕ) : regexOf? share "" n = none := rfl

theorem regexesOf_eq (share : Bool) (lines : List String) (n : ℕ) :
    regexesOf share lines n = lines.filterMap fun l => regexOf? share (trim l) n := by
  -- blank lines need not be left out first, since nothing is read from them anyway
  rw [regexesOf, filterMap_filter, filterMap_map]
  refine filterMap_congr fun l _ => ?_
  rw [Function.comp_apply]
  split
  · rfl
  · next hblank =>
    have hempty : trim l = "" := by simpa using hblank
    rw [hempty, regexOf?_empty]

/-- A line from which no pattern can be read. -/
inductive IsIdle (n : ℕ) (l : String) : Prop
  | blank (h : Text.trim l = "")
  | unparsable {f : Fault} (h : Json.ofText l n = .error f)
  | unreadable {f : Fault} {r : Regex} (h : (Regex.read (.str l) n).run {} = (.error f, r))

/-- Lines among which idle ones have been inserted. -/
inductive Interspersed (n : ℕ) : List String → List String → Prop
  | nil : Interspersed n [] []
  | line {ls ts : List String} (l : String) (h : Interspersed n ls ts) :
      Interspersed n (l :: ls) (l :: ts)
  | idle {ls ts : List String} {l : String} (hline : Text.IsOneLine l) (hidle : IsIdle n l)
      (h : Interspersed n ls ts) : Interspersed n ls (l :: ts)

theorem regexOf?_of_isIdle {l : String} (h : IsIdle n l) (share : Bool) :
    regexOf? share (trim l) n = none := by
  cases h with
  | blank h => rw [h, regexOf?_empty]
  | @unparsable f h =>
    have hread : (Regex.read (.str l) n).run {} =
        (.error f, { initialized := .bool true }) := by
      rw [Regex.read, run_modify_bind, ofLine_str, h]
      rfl
    rw [regexOf?, read_trim, hread]
  | unreadable h => rw [regexOf?, read_trim, h]

theorem regexesOf_interspersed (h : Interspersed n ls ts) (share : Bool) :
    regexesOf share (ts.map (· ++ "\n")) n = regexesOf share (ls.map (· ++ "\n")) n := by
  have htrim (l : String) : trim (l ++ "\n") = trim l :=
    trim_append_blanks l (by simp; decide)
  simp only [regexesOf_eq, filterMap_map, Function.comp_def, htrim]
  induction h with
  | nil => rfl
  | line l _ ih => rw [filterMap_cons, filterMap_cons, ih]
  | idle _ hidle _ ih => simp only [filterMap_cons, regexOf?_of_isIdle hidle share, ih]

theorem Interspersed.isOneLine (h : Interspersed n ls ts) (hls : ∀ l ∈ ls, Text.IsOneLine l) :
    ∀ t ∈ ts, Text.IsOneLine t := by
  induction h with
  | nil => exact hls
  | line l _ ih =>
    rw [forall_mem_cons] at hls ⊢
    exact ⟨hls.1, ih hls.2⟩
  | idle hline _ _ ih => exact forall_mem_cons.mpr ⟨hline, ih hls⟩

theorem Interspersed.refl (ls : List String) : Interspersed n ls ls := by
  induction ls with
  | nil => exact .nil
  | cons l ls ih => exact .line l ih

/-- A file of lines with idle ones among them is loaded as the file of the lines. -/
theorem load_interspersed {h : Host} (hls : ∀ l ∈ ls, Text.IsOneLine l)
    (hts : Interspersed n ls ts) (hh : h.Holds path (.text (unlines ts))) (share : Bool) :
    (load path share n).run h = (.ok (regexesOf share (ls.map (· ++ "\n")) n), h) := by
  have hread := hh.readLines (Content.lines_unlines (hts.isOneLine hls))
  rw [← regexesOf_interspersed hts]
  exact run_bind_eq_ok.mpr ⟨_, h, hread, rfl⟩

/-! ### Patterns written and loaded -/

/-- A line that is read as a pattern, the same as the given one, with the room or with more. -/
structure IsLineOf (r : Regex) (line : String) (s : Regex) (room : ℕ := Json.nestingLimit) :
    Prop where
  toLine : ∀ {n}, room ≤ n → r.toLine n = .ok line
  isOneLine : Text.IsOneLine line
  read : ∀ {n}, room ≤ n → regexOf? false (Text.trim (line ++ "\n")) n = some s
  same : r.SameAs s

theorem exists_isLineOf {r : Regex} (h : r.Storable room) :
    ∃ p : String × Regex, IsLineOf r p.1 p.2 room := by
  obtain ⟨line, s, hplain, htrim, hsame, hline⟩ := h.line
  refine ⟨(line, s), fun hn => (hline hn).1, Json.isOneLine_of_isPlain hplain, fun hn => ?_, hsame⟩
  obtain ⟨p, hp, hpattern⟩ := h.pattern
  rw [hsame.pattern] at hpattern
  rw [regexOf?, htrim, (hline hn).2]
  simp [hpattern, hp]

/-- Patterns that fit in some room are written with that room or more to a file, and loaded from it
with that room or more in the same order and the same in every respect, one a line. Idle lines
inserted anywhere make no difference. -/
theorem load_writeAll {rs : List Regex} {h : Host} {path : String} {room writing reading : ℕ}
    (hrs : ∀ r ∈ rs, r.Storable room) (hwriting : room ≤ writing) (hreading : room ≤ reading)
    (hpath : h.CanWrite path) :
    ∃ h' lines ss,
      (AnyRecord.writeAll path (rs.map fun r => .record (.regex r)) writing).run h =
        (Except.ok (), h') ∧
      h'.Holds path (.text (Text.unlines lines)) ∧
      (Act.countLines path).run h' = (Except.ok rs.length, h') ∧
      (load path false reading).run h' = (Except.ok ss, h') ∧
      List.Forall₂ Regex.SameAs rs ss ∧
      ∀ texts, Interspersed reading lines texts →
        ∀ h'' : Host, h''.Holds path (.text (Text.unlines texts)) →
          (load path false reading).run h'' = (Except.ok ss, h'') := by
  -- `ps` are the lines of the patterns, each with the pattern that is read from it
  obtain ⟨ps, hps⟩ := forall₂_of_forall_exists fun r hr => exists_isLineOf (hrs r hr)
  have hlines : ∀ l ∈ ps.map Prod.fst, Text.IsOneLine l := by
    intro l hl
    obtain ⟨p, hp, rfl⟩ := mem_map.mp hl
    obtain ⟨r, -, hr⟩ := exists_of_mem_right hps hp
    exact hr.isOneLine
  have hrecords : List.Forall₂ (fun (r : AnyRecord) line => r.toLine writing = .ok line)
      (rs.map .regex) (ps.map Prod.fst) :=
    forall₂_map_left_iff.mpr
      (forall₂_map_right_iff.mpr (hps.imp fun _ _ hp => hp.toLine hwriting))
  obtain ⟨h', hrun, hh'⟩ := AnyRecord.writeAll_run hrecords hpath
  have hloaded :
      regexesOf false ((ps.map Prod.fst).map (· ++ "\n")) reading = ps.map Prod.snd := by
    rw [regexesOf_eq, map_map, filterMap_map, filterMap_eq_map_iff_forall_eq_some]
    intro p hp
    obtain ⟨r, -, hr⟩ := exists_of_mem_right hps hp
    simpa only [Function.comp_apply] using hr.read hreading
  have hload {ts : List String} {g : Host} (hts : Interspersed reading (ps.map Prod.fst) ts)
      (hg : g.Holds path (.text (Text.unlines ts))) :
      (load path false reading).run g = (Except.ok (ps.map Prod.snd), g) := by
    rw [load_interspersed hlines hts hg, hloaded]
  refine ⟨h', ps.map Prod.fst, ps.map Prod.snd, ?_, hh', ?_, hload (.refl _) hh', ?_,
    fun ts hts g hg => hload hts hg⟩
  · rw [map_map] at hrun
    exact hrun
  · rw [hh'.countLines, Content.lines_unlines hlines, length_map, length_map, hps.length_eq]
  · exact forall₂_map_right_iff.mpr (hps.imp fun _ _ hp => hp.same)

/-- A pattern on which two languages disagree. -/
def disputed : Regex :=
  { Regex.bare (.str "(é+)+$") with
    total := some (.object [("npm", .int 2), ("pypi", .int 1)])
    supportedLangs := .list [.str "javascript", .str "python"]
    witnesses := .items [.record {
      pattern := .str "(é+)+$"
      input := .str "é\n"
      results := .inl (Witness.tableOf [
        (⟨true, some "é", [some "é", none]⟩, .list [.str "python"]),
        (⟨false, none, []⟩, .list [.str "javascript"])]) }] }

theorem fitsAt_empty : (Value.object []).FitsAt 1 := .object (by decide) (by simp) (by simp)

theorem storable_disputed : disputed.Storable where
  initialized := rfl
  type := rfl
  pattern := ⟨_, by decide, rfl⟩
  total := by
    refine ⟨_, rfl, .object (by decide) (by simp) ?_⟩
    simp [Value.short_digit]
  posts := ⟨_, rfl, fitsAt_empty⟩
  static := ⟨_, rfl, fitsAt_empty⟩
  dynamic := ⟨_, rfl, fitsAt_empty⟩
  supportedLangs := .list (by decide) (by simp)
  inputsTested := .digit (by decide)
  witnesses := by
    refine ⟨[_], rfl, ?_⟩
    rw [forall_mem_singleton]
    refine ⟨.str _, .str _, _, rfl, by decide, ?_⟩
    have hlanguage (l : String) : (Value.list [.str l]).FitsAt 2 :=
      .list (by decide) (by simp)
    simp [hlanguage]

/-- The pattern on which languages disagree is loaded from the file to which it was written. -/
theorem load_writeAll_disputed :
    ∃ h ss, (AnyRecord.writeAll "corpus" [.record (.regex disputed)]).run {} = (Except.ok (), h) ∧
      (Act.countLines "corpus").run h = (Except.ok 1, h) ∧
      (load "corpus" false).run h = (Except.ok ss, h) ∧
      List.Forall₂ Regex.SameAs [disputed] ss := by
  have hpath : Host.CanWrite {} "corpus" := ⟨["corpus"], none, rfl, by simp⟩
  have hrs : ∀ r ∈ [disputed], r.Storable := by simp [storable_disputed]
  obtain ⟨h, _, ss, hrun, -, hcount, hload, hsame, -⟩ := load_writeAll hrs le_rfl le_rfl hpath
  exact ⟨h, ss, hrun, hcount, hload, hsame⟩

def counted (ms : Members) : Regex :=
  { Regex.bare (.str "a") with total := some (.object ms) }

theorem storable_counted (ms : Members) (h : (Value.object ms).FitsAt 1) :
    (counted ms).Storable where
  initialized := rfl
  type := rfl
  pattern := ⟨"a", by decide, rfl⟩
  total := ⟨ms, rfl, h⟩
  posts := ⟨_, rfl, fitsAt_empty⟩
  static := ⟨_, rfl, fitsAt_empty⟩
  dynamic := ⟨_, rfl, fitsAt_empty⟩
  supportedLangs := .list (by decide) (by simp)
  inputsTested := .digit (by decide)
  witnesses := ⟨[], rfl, by simp⟩

/-- Counts with a number of too many digits. -/
def longCounts : Members := [("npm", .int (10 ^ Json.digitLimit))]

theorem toLine_longCounts (n : ℕ) (line : String) : (counted longCounts).toLine n ≠ .ok line := by
  have hjson : Value.IsJson (.object (Regex.membersOf (counted longCounts) (.str "a")
      (.object longCounts) (.object []) (.object []) (.object []) [])) := by
    refine .object (by simp [Regex.membersOf]) ?_
    simp [Regex.membersOf, longCounts, counted, Regex.bare, Regex.make, given]
  obtain ⟨_, -, h⟩ := Json.toLine_object hjson
  rw [Regex.toLine_eq (r := counted longCounts) rfl rfl rfl rfl rfl rfl rfl]
  intro hline
  have hlimit := (((h n line).mp hline).1).mono (Nat.le_add_right n 2)
  simp [Regex.membersOf, longCounts, Value.short_int, Int.natAbs_pow] at hlimit

/-- A pattern that could be written with other counts cannot be written with too long ones, however
much room there is. -/
theorem writeAll_longCounts :
    (∀ ms, (Value.object ms).FitsAt 1 → (counted ms).Storable) ∧
    Value.IsJson (.object longCounts) ∧
    ∀ room path h h', (AnyRecord.writeAll path [.record (.regex (counted longCounts))] room).run h ≠
      (Except.ok (), h') := by
  refine ⟨storable_counted, .object (by simp [longCounts]) (by simp [longCounts]),
    fun room path h h' hrun => ?_⟩
  obtain ⟨_, h₁, -, hrun⟩ := run_bind_eq_ok.mp hrun
  rw [AnyRecord.appendAll, run_bind_eq_ok] at hrun
  obtain ⟨line, h₂, hline, -⟩ := hrun
  exact toLine_longCounts room line (run_lift_eq_ok.mp hline).1

end Measure
end RegexCorpus
