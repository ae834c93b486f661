import RegexCorpus.Proofs.Host.Frame
import RegexCorpus.Proofs.Measure.Line
import RegexCorpus.Proofs.Measure.Load
import RegexCorpus.Proofs.Schedule.Pool

/-!
# Measuring a corpus

Every pattern that is taken from a file is accounted for once: it has a line of metrics, or it is in
a batch that could not be measured. Tools and the output file do not get in each other's way, so
that the order in which batches are completed decides on the order of the lines only.
-/

namespace RegexCorpus.Measure
open List Text

variable {batch : List Regex} {done : List String} {order : List ℕ} {work : List (List Regex)}
  {r : Result} {counts : Option Value}

open Schedule (completed)
open Act (FileFree OnlyFiles)

variable {h h' : Host} {limits : Automaton.Limits} {analyses : Analyses} {out : String}

/-! ### Batches -/

variable (rs : List Regex)

theorem flatten_batches {α : Type} {size : ℕ} (hsize : 0 < size) (xs : List α) :
    (batches size xs).flatten = xs := by
  fun_induction batches size xs with
  | case1 xs hstop =>
    rcases hstop with rfl | rfl
    · rfl
    · exact absurd hsize (by decide)
  | case2 xs hgo ih => rw [flatten_cons, ih, take_append_drop]

theorem keepUsed_nil : keepUsed [] rs = .ok rs := by
  induction rs with
  | nil => rfl
  | cons r rs ih =>
    rw [keepUsed, ih]
    rfl

/-! ### Measuring without files -/

def analyserCommand (h : Host) : Command :=
  .program [((h.programs.find? (·.1 == "wine")).map (·.2)).getD "", analyser h.home, h.temporary]

theorem runAnalyser_run (h : Host) :
    runAnalyser.run h = (Act.orElse (Act.execute (analyserCommand h)) (!·.isStop) fun _ =>
      pure { code := 1 }).run h := rfl

theorem fileFree_runAnalyser : FileFree runAnalyser := by
  have hfree (command : Command) := (FileFree.execute command).orElse (!·.isStop)
    fun _ => FileFree.pure { code := 1 }
  constructor
  · -- the command depends on where programs are, and not on files
    intro h files
    have hcommand : analyserCommand { h with files } = analyserCommand h := rfl
    rw [runAnalyser_run, runAnalyser_run, hcommand]
    exact (hfree _).frame h files
  · intro h
    rw [runAnalyser_run]
    exact (hfree _).cwd h
  · intro P h hP
    rw [runAnalyser_run]
    exact (hfree _).expects P h hP

theorem fileFree_analyse (patterns : List String) : FileFree (analyse patterns) := by
  refine fileFree_runAnalyser.bind fun reply => ?_
  split_ifs
  · exact .lift _
  · exact .pure _

theorem fileFree_predictWorstCase (pattern : String) : FileFree (predictWorstCase pattern) :=
  (FileFree.ofAsk _ _).bind fun _ => .lift _

theorem fileFree_measureAll : FileFree (measureAll limits analyses rs) := by
  rw [measureAll_eq]
  refine (FileFree.lift _).bind fun csharp => FileFree.bind ?_ fun reports =>
    (FileFree.lift _).bind fun measures => FileFree.bind ?_ fun worst =>
      (FileFree.lift _).bind fun _ => .lift _
  · split_ifs
    · exact fileFree_analyse csharp
    · exact .pure _
  · split_ifs
    · exact .mapM fileFree_predictWorstCase csharp
    · exact .pure _

theorem fileFree_measureBatch : FileFree (measureBatch limits analyses rs) :=
  ((fileFree_measureAll rs).bind fun _ => .pure _).tryCatch fun _ => .pure _

/-! ### Results -/

/-- A batch, what it came to, and the lines that it left. -/
structure Result where
  batch : List Regex
  measured : Measured
  lines : List String

/-- A batch that was measured left a line for each of its patterns, with the metrics of the pattern;
a batch that came back left none. -/
inductive Result.Sound (limits : Automaton.Limits) (analyses : Analyses) : Result → Prop
  | whole {h : Host} {batch : List Regex} {ms : List Metrics} {lines : List String}
      (hlength : ms.length = batch.length)
      (hentries : ∀ (k : ℕ) r m, batch[k]? = some r → ms[k]? = some m →
        Entry limits analyses h batch.length k r m)
      (hlines : ms.mapM Metrics.toLine = .ok lines) :
      Result.Sound limits analyses ⟨batch, .metrics ms, lines⟩
  | back (batch : List Regex) : Result.Sound limits analyses ⟨batch, .unmeasured batch, []⟩

/-- The batch came back. -/
def Result.failed (r : Result) : Bool :=
  match r.measured with
  | .metrics _ => false
  | .unmeasured _ => true

theorem measureBatch_run (limits : Automaton.Limits) (analyses : Analyses) (rs : List Regex)
    (h : Host) :
    ∃ m h', (measureBatch limits analyses rs).run h = (.ok m, h') ∧
      (m = .unmeasured rs ∨ ∃ ms, m = .metrics ms ∧ ms.length = rs.length ∧
        ∀ (k : ℕ) r e, rs[k]? = some r → ms[k]? = some e →
          Entry limits analyses h rs.length k r e) := by
  unfold measureBatch
  rw [run_tryCatch, run_bind]
  rcases hall : (measureAll limits analyses rs).run h with ⟨f | ms, h'⟩
  · exact ⟨.unmeasured rs, h', rfl, .inl rfl⟩
  · obtain ⟨hlength, hentries⟩ := measureAll_eq_ok hall
    exact ⟨.metrics ms, h', rfl, .inr ⟨ms, rfl, hlength, hentries⟩⟩

theorem measureBatch_metrics {ms : List Metrics}
    (hrun : (measureBatch limits analyses batch).run h = (.ok (.metrics ms), h')) :
    List.Forall₂ (fun r m => ∃ k, Entry limits analyses h batch.length k r m) batch ms := by
  obtain ⟨_, _, hrun', hcases⟩ := measureBatch_run limits analyses batch h
  cases hrun.symm.trans hrun'
  rcases hcases with hback | ⟨_, hms, hlength, hentries⟩
  · cases hback
  · cases hms
    refine forall₂_iff_get.2 ⟨hlength.symm, fun k hk hk' => ⟨k, ?_⟩⟩
    exact hentries k _ _ (getElem?_eq_getElem hk) (getElem?_eq_getElem hk')

/-! ### Writing -/

theorem onlyFiles_emit (out : String) (m : Measured) : OnlyFiles (emit out (.ok m)) := by
  cases m with
  | metrics ms => exact .forM (fun _ => (OnlyFiles.lift _).bind fun _ => .appendFile _ _) ms
  | unmeasured _ => exact .pure ()

theorem emit_metrics {ms : List Metrics} (hholds : h.Holds out (.text (unlines done)))
    (hrun : (emit out (.ok (.metrics ms))).run h = (.ok (), h')) :
    ∃ lines, ms.mapM Metrics.toLine = .ok lines ∧
      h'.Holds out (.text (unlines (done ++ lines))) := by
  induction ms generalizing h done with
  | nil =>
    cases hrun
    exact ⟨[], rfl, by rwa [append_nil]⟩
  | cons m ms ih =>
    obtain ⟨_, h₁, hfirst, hrest⟩ := run_bind_eq_ok.1 hrun
    obtain ⟨line, _, hlift, happend⟩ := run_bind_eq_ok.1 hfirst
    obtain ⟨hline, rfl⟩ := run_lift_eq_ok.1 hlift
    obtain ⟨h₂, happend', hholds'⟩ := Act.appendFile_run hholds (line ++ "\n")
    cases happend.symm.trans happend'
    rw [Content.append, ← unlines_concat] at hholds'
    obtain ⟨lines, hlines, hfinal⟩ := ih hholds' hrest
    refine ⟨line :: lines, ?_, ?_⟩
    · rw [mapM_cons, hline, Outcome.ok_bind, hlines]
      rfl
    · rwa [append_assoc, singleton_append] at hfinal

theorem emit_eq_ok {m : Measured} {h₁ : Host} (hholds : h.Holds out (.text (unlines done)))
    (hmeasure : (measureBatch limits analyses batch).run h = (.ok m, h₁))
    (hrun : (emit out (.ok m)).run h₁ = (.ok (), h')) :
    ∃ lines, Result.Sound limits analyses ⟨batch, m, lines⟩ ∧
      h'.Holds out (.text (unlines (done ++ lines))) := by
  have hholds₁ := (fileFree_measureBatch batch).holds hmeasure hholds
  obtain ⟨m', h₁', hmeasure', hm⟩ := measureBatch_run limits analyses batch h
  cases hmeasure.symm.trans hmeasure'
  rcases hm with rfl | ⟨ms, rfl, hlength, hentries⟩
  · cases hrun
    exact ⟨[], .back batch, by rwa [append_nil]⟩
  · obtain ⟨lines, hlines, hfinal⟩ := emit_metrics hholds₁ hrun
    exact ⟨lines, .whole hlength hentries hlines, hfinal⟩

theorem run_emit (order : List ℕ) (batch : List Regex) (h : Host) :
    ((unlimited order).run (measureBatch limits analyses batch) >>= emit out).run h =
      (emit out ((measureBatch limits analyses batch).run h).1).run
        ((measureBatch limits analyses batch).run h).2 := rfl

/-- Batches are measured and written one after the other. Measuring them without writing gives the
same, and the file holds the lines of all of them. -/
theorem mapM_emit_eq_ok
    {us : List Unit} (hholds : h.Holds out (.text (unlines done)))
    (hrun : (work.mapM fun batch => (unlimited order).run (measureBatch limits analyses batch) >>=
      emit out).run h = (.ok us, h')) :
    ∃ (rs : List Result) (h₂ : Host), rs.map Result.batch = work ∧
      (∀ r ∈ rs, r.Sound limits analyses) ∧
      (work.mapM (measureBatch limits analyses)).run h =
        (.ok (rs.map Result.measured), h₂) ∧
      h'.Holds out (.text (unlines (done ++ rs.flatMap Result.lines))) := by
  induction work generalizing h done us with
  | nil =>
    cases hrun
    exact ⟨[], h', rfl, by simp, rfl, by simpa using hholds⟩
  | cons batch work ih =>
    rw [mapM_cons] at hrun
    obtain ⟨_, g, hfirst, hrun⟩ := run_bind_eq_ok.1 hrun
    obtain ⟨vs, _, hrest, hend⟩ := run_bind_eq_ok.1 hrun
    cases hend
    obtain ⟨m, h₁, hmeasure, -⟩ := measureBatch_run limits analyses batch h
    rw [run_emit, hmeasure] at hfirst
    obtain ⟨lines, hsound, hholds'⟩ := emit_eq_ok hholds hmeasure hfirst
    obtain ⟨rs, h₂, hbatches, hsounds, hmeasures, hfinal⟩ := ih hholds' hrest
    -- writing changed files only, which measuring does not see
    obtain ⟨h₃, hmeasures₁⟩ := (FileFree.mapM fileFree_measureBatch work).run_of_onlyFiles
      (onlyFiles_emit out m) hfirst hmeasures
    refine ⟨⟨batch, m, lines⟩ :: rs, h₃, ?_, ?_, ?_, ?_⟩
    · rw [map_cons, hbatches]
    · rw [forall_mem_cons]
      exact ⟨hsound, hsounds⟩
    · rw [mapM_cons, run_bind_of_ok hmeasure, run_bind_of_ok hmeasures₁]
      rfl
    · rwa [flatMap_cons, ← append_assoc]

theorem measureBatches_eq_ok
    (hrun : (measureBatches limits analyses out order work).run h = (.ok (), h')) :
    ∃ (rs : List Result) (h₂ : Host), rs.map Result.batch = work ∧
      (∀ r ∈ rs, r.Sound limits analyses) ∧
      ((completed order work).mapM (measureBatch limits analyses)).run h =
        (.ok ((completed order rs).map Result.measured), h₂) ∧
      h'.Holds out (.text (unlines ((completed order rs).flatMap Result.lines))) := by
  obtain ⟨_, h₁, hwrite, hrun⟩ := run_bind_eq_ok.1 hrun
  obtain ⟨us, _, heach, hend⟩ := run_bind_eq_ok.1 hrun
  cases hend
  rw [Schedule.Plan.forEach_eq (.inl rfl) (u := .unlimited) rfl, Schedule.completed_map,
    mapM_map] at heach
  have hempty : h₁.Holds out (.text (unlines [])) := Act.holds_of_writeFile hwrite
  obtain ⟨cs, h₂, hbatches, hsound, hmeasures, hholds⟩ := mapM_emit_eq_ok hempty heach
  obtain ⟨rs, hrs, rfl⟩ := Schedule.exists_completed_map hbatches
  obtain ⟨h₃, hmeasures₁⟩ := (FileFree.mapM fileFree_measureBatch _).run_of_onlyFiles
    (OnlyFiles.writeFile out "") hwrite hmeasures
  refine ⟨rs, h₃, hrs, fun r hr => ?_, hmeasures₁, hholds⟩
  exact hsound r ((Schedule.completed_perm _ rs).mem_iff.2 hr)

/-! ### Getting through the batches -/

theorem emit_run {m : Measured} {c : Content} (hholds : h.Holds out c)
    (hm : ∀ ms, m = .metrics ms → ∀ e ∈ ms, ∃ line, e.toLine = .ok line) :
    ∃ h' c', (emit out (.ok m)).run h = (.ok (), h') ∧ h'.Holds out c' := by
  cases m with
  | unmeasured rs => exact ⟨h, c, rfl, hholds⟩
  | metrics ms =>
    have hms := hm ms rfl
    clear hm
    induction ms generalizing h c with
    | nil => exact ⟨h, c, rfl, hholds⟩
    | cons e ms ih =>
      rw [forall_mem_cons] at hms
      obtain ⟨⟨line, hline⟩, hms⟩ := hms
      obtain ⟨h₁, happend, hholds₁⟩ := Act.appendFile_run hholds (line ++ "\n")
      obtain ⟨h₂, c₂, hrest, hholds₂⟩ := ih hholds₁ hms
      refine ⟨h₂, c₂, run_bind_eq_ok.2 ⟨(), h₁, ?_, hrest⟩, hholds₂⟩
      exact run_bind_eq_ok.2 ⟨line, h, run_lift_eq_ok.2 ⟨hline, rfl⟩, happend⟩

/-- Whatever is measured on the batch can be written, when the answers to come satisfy the
condition. -/
def WritableUnder (P : Answer → Prop) (limits : Automaton.Limits) (analyses : Analyses)
    (batch : List Regex) : Prop :=
  ∀ h h' ms, h.Expects P →
    (measureBatch limits analyses batch).run h = (.ok (.metrics ms), h') →
      ∀ m ∈ ms, ∃ line, m.toLine = .ok line

/-- Whatever is measured on the batch can be written. -/
def Writable (limits : Automaton.Limits) (analyses : Analyses) (batch : List Regex) : Prop :=
  ∀ h h' ms, (measureBatch limits analyses batch).run h = (.ok (.metrics ms), h') →
    ∀ m ∈ ms, ∃ line, m.toLine = .ok line

theorem mapM_emit_run (order : List ℕ) {c : Content} {P : Answer → Prop} (hholds : h.Holds out c)
    (hP : h.Expects P) (hwork : ∀ batch ∈ work, WritableUnder P limits analyses batch) :
    ∃ us h', (work.mapM fun batch => (unlimited order).run (measureBatch limits analyses batch) >>=
      emit out).run h = (.ok us, h') := by
  induction work generalizing h c with
  | nil => exact ⟨[], h, rfl⟩
  | cons batch work ih =>
    rw [forall_mem_cons] at hwork
    obtain ⟨hbatch, hwork⟩ := hwork
    obtain ⟨m, h₁, hmeasure, -⟩ := measureBatch_run limits analyses batch h
    have hholds₁ := (fileFree_measureBatch batch).holds hmeasure hholds
    have hP₁ : h₁.Expects P := by
      have hfree : FileFree (measureBatch limits analyses batch) := fileFree_measureBatch batch
      have hexpects := hfree.expects P h hP
      rwa [hmeasure] at hexpects
    obtain ⟨h₂, c₂, hemit, hholds₂⟩ :=
      emit_run hholds₁ fun ms hm => hbatch h h₁ ms hP (hm ▸ hmeasure)
    obtain ⟨us, h₃, hrest⟩ := ih hholds₂ ((onlyFiles_emit out m).expects hemit hP₁) hwork
    have hfirst : ((unlimited order).run (measureBatch limits analyses batch) >>= emit out).run h =
        (.ok (), h₂) := by rw [run_emit, hmeasure, hemit]
    refine ⟨() :: us, h₃, ?_⟩
    rw [mapM_cons, run_bind_of_ok hfirst, run_bind_of_ok hrest]
    rfl

/-- A pool gets through its batches when there may be an output file and what is measured can be
written. -/
theorem measureBatches_run_under {P : Answer → Prop} (hout : h.CanWrite out) (hP : h.Expects P)
    (hwork : ∀ batch ∈ work, WritableUnder P limits analyses batch) (order : List ℕ) :
    ∃ h', (measureBatches limits analyses out order work).run h = (.ok (), h') := by
  obtain ⟨h₁, hwrite, hholds⟩ := Act.writeFile_run hout ""
  have hP₁ := (OnlyFiles.writeFile out "").expects hwrite hP
  have hcompleted : ∀ batch ∈ completed order work, WritableUnder P limits analyses batch :=
    fun batch hbatch => hwork batch ((Schedule.completed_perm order work).mem_iff.1 hbatch)
  obtain ⟨us, h₂, heach⟩ := mapM_emit_run order hholds hP₁ hcompleted
  have hpool : ((unlimited order).forEach (work.map (measureBatch limits analyses))
      (emit out)).run h₁ = (.ok us, h₂) := by
    rw [Schedule.Plan.forEach_eq (.inl rfl) (u := .unlimited) rfl, Schedule.completed_map, mapM_map]
    exact heach
  refine ⟨h₂, ?_⟩
  rw [measureBatches, run_bind_of_ok hwrite, run_bind_of_ok hpool]
  rfl

theorem measureBatches_run (hout : h.CanWrite out)
    (hwork : ∀ batch ∈ work, Writable limits analyses batch) (order : List ℕ) :
    ∃ h', (measureBatches limits analyses out order work).run h = (.ok (), h') := by
  have hP : h.Expects fun _ => True := ⟨trivial, fun _ _ => trivial⟩
  exact measureBatches_run_under hout hP (fun batch hb h h' ms _ => hwork batch hb h h' ms) order

/-! ### Without analyses -/

/-- The length of the pattern in the notation of C# can be written. -/
def Brief (r : Regex) : Prop :=
  ∀ p, r.pattern = some (.str p) → (Atom.int (Pattern.toCSharp "i" p).length).Short

theorem writable_unanalysed (hoff : analyses.automaton = false) (hbrief : ∀ r ∈ batch, Brief r) :
    Writable limits analyses batch := by
  intro h h' ms hrun m hm
  obtain ⟨r, hr, k, he⟩ := exists_of_mem_right (measureBatch_metrics hrun) hm
  obtain ⟨p, hp, -, hcsharp⟩ := he.pattern
  refine he.exists_toLine ?_ fun hon => absurd (hon.symm.trans hoff) (by decide)
  rw [hcsharp]
  exact hbrief r hr p hp

/-- The pattern is a text, and the languages in which it is used are known. -/
structure Placed (r : Regex) : Prop where
  pattern : ∃ p, r.pattern = some (.str p)
  static : ∃ ls, r.staticLanguages = .ok ls
  dynamic : ∃ ls, r.dynamicLanguages = .ok ls

theorem metricsOfAll_unanalysed {rs : List Regex} {cs : List String} (hrs : ∀ r ∈ rs, Placed r)
    (hcs : List.Forall₂ (fun r c => toCSharp r = .ok c) rs cs) :
    ∃ ms, metricsOfAll {} rs cs (rs.map fun _ => .dict []) (rs.map fun _ => .unknown)
      (rs.map fun _ => .unknown) = .ok ms := by
  induction hcs with
  | nil => exact ⟨[], rfl⟩
  | @cons r c rs cs _ _ ih =>
    rw [forall_mem_cons] at hrs
    obtain ⟨⟨⟨p, hp⟩, ⟨ss, hs⟩, ⟨ds, hd⟩⟩, hrs⟩ := hrs
    obtain ⟨ms, hms⟩ := ih hrs
    simp only [map_cons, metricsOfAll, metricsOf, hp, hs, hd, hms]
    exact ⟨_, rfl⟩

theorem measureAll_unanalysed {rs : List Regex} (hrs : ∀ r ∈ rs, Placed r) (h : Host) :
    ∃ ms, (measureAll limits {} rs).run h = (.ok ms, h) := by
  have hcsharp : ∀ r ∈ rs, ∃ c, toCSharp r = .ok c := by
    intro r hr
    obtain ⟨p, hp⟩ := (hrs r hr).pattern
    exact ⟨_, by rw [toCSharp, hp]; rfl⟩
  obtain ⟨cs, hcs⟩ := forall₂_of_forall_exists hcsharp
  obtain ⟨ms, hms⟩ := metricsOfAll_unanalysed hrs hcs
  have hlength : require (rs.length == (rs.map fun _ => Value.dict []).length) = .ok () := by
    simp [require_eq_ok]
  refine ⟨ms, ?_⟩
  rw [measureAll, run_lift_bind (mapM_eq_ok.2 hcs)]
  exact (run_lift_bind hlength _ _).trans (run_lift_eq_ok.2 ⟨hms, rfl⟩)

/-- Without analyses, a batch comes back exactly when it has a pattern whose languages are not
known. -/
theorem Result.failed_unanalysed
    (hrun : (measureBatch limits {} r.batch).run h = (.ok r.measured, h')) :
    r.failed = false ↔ ∀ q ∈ r.batch, Placed q := by
  obtain ⟨batch, m, lines⟩ := r
  dsimp only at hrun ⊢
  constructor
  · intro hm q hq
    cases m with
    | unmeasured rs => cases hm
    | metrics ms =>
      obtain ⟨e, -, k, he⟩ := exists_of_mem_right (measureBatch_metrics hrun).flip hq
      obtain ⟨p, hp, -⟩ := he.pattern
      exact ⟨⟨p, hp⟩, ⟨_, he.languages.1⟩, ⟨_, he.languages.2⟩⟩
  · intro hplaced
    obtain ⟨ms, hms⟩ := measureAll_unanalysed hplaced h
    have hrun' : (measureBatch limits {} batch).run h = (.ok (.metrics ms), h) := by
      rw [measureBatch, run_tryCatch, run_bind_of_ok hms]
      rfl
    cases hrun.symm.trans hrun'
    rfl

/-! ### Accounting for patterns -/

/-- The lines that these results left account for the patterns of a corpus. -/
structure Accounts (limits : Automaton.Limits) (analyses : Analyses) (order : List ℕ) (h : Host)
    (kept : List Regex) (rs : List Result) (lines : List String) : Prop where
  cut : rs.map Result.batch = batches batchSize kept
  flatten : (rs.map Result.batch).flatten = kept
  measured : ∃ h₂,
    (((completed order rs).map Result.batch).mapM (measureBatch limits analyses)).run h =
      (.ok ((completed order rs).map Result.measured), h₂)
  sound : ∀ r ∈ rs, r.Sound limits analyses
  written : lines = (completed order rs).flatMap Result.lines
  multiset : lines.Perm (rs.flatMap Result.lines)
  inOrder : (∀ k ∈ order, k = 0) → lines = rs.flatMap Result.lines
  count : lines.length + ((rs.filter Result.failed).map fun r => r.batch.length).sum = kept.length

theorem Accounts.run_of_mem {kept : List Regex} {rs : List Result} {lines : List String}
    (hrs : Accounts limits analyses order h kept rs lines) (hr : r ∈ rs) :
    ∃ g g', (measureBatch limits analyses r.batch).run g = (.ok r.measured, g') := by
  obtain ⟨_, hrun⟩ := hrs.measured
  have heach := run_mapM_eq_ok hrun
  rw [forall₂_map_left_iff, forall₂_map_right_iff, forall₂_same] at heach
  exact heach r ((Schedule.completed_perm order rs).mem_iff.2 hr)

theorem Result.Sound.isOneLine (hr : r.Sound limits analyses) :
    ∀ l ∈ r.lines, Text.IsOneLine l := by
  intro l hl
  cases hr with
  | whole _ _ hlines =>
    obtain ⟨m, -, hm⟩ := exists_of_mem_right (mapM_eq_ok.1 hlines) hl
    exact Json.isOneLine_of_isPlain (Json.isPlain_toLine hm)
  | back => simp at hl

/-- Lines, and patterns of batches without lines, make up all patterns. -/
theorem count_results {rs : List Result} (hrs : ∀ r ∈ rs, r.Sound limits analyses) :
    (rs.flatMap Result.lines).length + ((rs.filter Result.failed).map fun r => r.batch.length).sum =
      (rs.map Result.batch).flatten.length := by
  induction rs with
  | nil => rfl
  | cons r rs ih =>
    rw [forall_mem_cons] at hrs
    obtain ⟨hr, hrs⟩ := hrs
    have hrest := ih hrs
    rw [flatMap_cons, length_append, map_cons, flatten_cons, length_append]
    cases hr with
    | whole hlength _ hlines =>
      have hcount := (mapM_eq_ok.1 hlines).length_eq
      rw [filter_cons_of_neg (by simp [Result.failed])]
      dsimp only
      omega
    | back batch =>
      rw [filter_cons_of_pos (by simp [Result.failed]), map_cons, sum_cons]
      dsimp only [length_nil]
      omega

/-- Whatever the file, the tools and the order in which batches are completed: once the batches have
been gone through, each pattern that was kept has its line in the output or is in a batch that came
back, and there is nothing else in the output. -/
theorem measureFile_accounts {path : String} {shareStatic : Bool} {languages : List String}
    {order : List ℕ} {h₁ : Host} {work : List (List Regex)}
    (hload : (loadBatches path shareStatic languages).run h = (Except.ok work, h₁))
    (hmeasure : (measureBatches limits analyses out order work).run h₁ = (Except.ok (), h')) :
    (measureFile limits path shareStatic analyses languages out order).run h =
      (if work.isEmpty then .error .divisionByZero else .ok (), h') ∧
    ∃ (loaded kept : List Regex) (rs : List Result) (lines : List String),
      (load path shareStatic).run h = (Except.ok loaded, h₁) ∧
      keepUsed languages loaded = .ok kept ∧
      h'.Holds out (.text (Text.unlines lines)) ∧
      (Act.readLines out).run h' = (Except.ok (lines.map (· ++ "\n")), h') ∧
      Accounts limits analyses order h₁ kept rs lines := by
  constructor
  · rw [measureFile, run_bind_of_ok hload, run_bind_of_ok hmeasure]
    cases work <;> rfl
  · obtain ⟨loaded, _, hloaded, hrest⟩ := run_bind_eq_ok.1 hload
    obtain ⟨kept, _, hlift, hend⟩ := run_bind_eq_ok.1 hrest
    obtain ⟨hkept, rfl⟩ := run_lift_eq_ok.1 hlift
    cases hend
    obtain ⟨rs, h₂, hbatches, hsound, hmeasures, hholds⟩ := measureBatches_eq_ok hmeasure
    have hone : ∀ l ∈ (completed order rs).flatMap Result.lines, Text.IsOneLine l := by
      intro l hl
      obtain ⟨r, hr, hl⟩ := mem_flatMap.1 hl
      exact (hsound r ((Schedule.completed_perm _ rs).mem_iff.1 hr)).isOneLine l hl
    have hflatten : (rs.map Result.batch).flatten = kept := by
      rw [hbatches, flatten_batches (by decide)]
    have hperm : ((completed order rs).flatMap Result.lines).Perm (rs.flatMap Result.lines) :=
      (Schedule.completed_perm order rs).flatMap_right _
    refine ⟨loaded, kept, rs, _, hloaded, hkept, hholds,
      hholds.readLines (Content.lines_unlines hone), ?_⟩
    refine ⟨hbatches, hflatten, ⟨h₂, ?_⟩, hsound, rfl, hperm, fun hzeros => ?_, ?_⟩
    · rwa [← Schedule.completed_map, hbatches]
    · rw [Schedule.completed_of_zeros hzeros]
    · rw [hperm.length_eq, count_results hsound, hflatten]

/-! ### A corpus -/

/-- A pattern that was found in a registry which is not known. -/
def unplaced : Regex :=
  { Regex.bare (.str "b") with static := some (.object [("x", .int 1)]) }

theorem storable_unplaced : unplaced.Storable where
  initialized := rfl
  type := rfl
  pattern := ⟨"b", by decide, rfl⟩
  total := ⟨_, rfl, fitsAt_empty⟩
  posts := ⟨_, rfl, fitsAt_empty⟩
  static := ⟨_, rfl, .object (by decide) (by simp) (by simp [Value.short_digit])⟩
  dynamic := ⟨_, rfl, fitsAt_empty⟩
  supportedLangs := .list (by decide) (by simp)
  inputsTested := .digit (by decide)
  witnesses := ⟨[], rfl, by simp⟩

theorem languagesOf_empty (hc : Option.Rel Value.Reordered (some (.dict [])) counts) :
    Regex.languagesOf counts = .ok [] := by
  obtain ⟨hv⟩ := hc
  obtain ⟨⟩ | ⟨⟩ | ⟨hkeys, -⟩ := hv
  rw [map_nil, nil_perm, map_eq_nil_iff] at hkeys
  rw [hkeys]
  rfl

/-- A table with one entry has no other order. -/
theorem counts_eq_of_single {k : String} {n : ℤ}
    (hc : Option.Rel Value.Reordered (some (.object [(k, .int n)])) counts) :
    counts = some (.object [(k, .int n)]) := by
  obtain ⟨hv⟩ := hc
  obtain ⟨⟩ | ⟨⟩ | @⟨_, fs, hkeys, hvalues⟩ := hv
  obtain ⟨⟨_, v⟩, rfl, rfl⟩ := map_eq_singleton_iff.1 (singleton_perm.1 hkeys).symm
  obtain ⟨⟩ := hvalues _ (.int n) v (mem_singleton.2 rfl) (mem_singleton.2 rfl)
  rfl

theorem languagesOf_unplaced (ls : List String)
    (hc : Option.Rel Value.Reordered (some (.object [("x", .int 1)])) counts) :
    Regex.languagesOf counts ≠ .ok ls := by
  rw [counts_eq_of_single hc]
  intro hls
  cases hls

/-- The line is read as this pattern, and the pattern's metrics can be written. -/
structure HasLine (r : Regex) (l : String) : Prop where
  isOneLine : Text.IsOneLine l
  read : regexOf? false (Text.trim (l ++ "\n")) = some r
  brief : Brief r

theorem IsLineOf.hasLine {r s : Regex} {l p : String} (hl : IsLineOf r l s)
    (hp : r.pattern = some (.str p)) (hlength : (Pattern.toCSharp "i" p).length < 10) :
    HasLine s l := by
  refine ⟨hl.isOneLine, hl.read le_rfl, fun p' hp' => ?_⟩
  rw [← hl.same.pattern, hp] at hp'
  cases hp'
  refine Value.short_digit ?_
  rw [Int.natAbs_natCast]
  exact hlength

theorem exists_placed_line : ∃ r l, HasLine r l ∧ Placed r := by
  obtain ⟨⟨l, r⟩, hl⟩ := exists_isLineOf (Regex.storable_bare (p := "a") (by decide))
  refine ⟨r, l, hl.hasLine rfl (by decide), ⟨"a", hl.same.pattern.symm⟩, ⟨[], ?_⟩, ⟨[], ?_⟩⟩
  · exact languagesOf_empty hl.same.static
  · exact languagesOf_empty hl.same.dynamic

theorem exists_unplaced_line : ∃ r l, HasLine r l ∧ ¬ Placed r := by
  obtain ⟨⟨l, r⟩, hl⟩ := exists_isLineOf storable_unplaced
  refine ⟨r, l, hl.hasLine rfl (by decide), ?_⟩
  rintro ⟨-, ⟨ls, hls⟩, -⟩
  exact languagesOf_unplaced ls hl.same.static hls

/-- A file has ten lines of one pattern and a line of another. -/
theorem load_eleven {r r' : Regex} {l l' : String} (hl : HasLine r l) (hl' : HasLine r' l') :
    ∃ h : Host, (load "corpus" false).run h = (.ok (replicate 10 r ++ [r']), h) ∧
      h.CanWrite "out" := by
  let ls := replicate 10 l ++ [l']
  have hone : ∀ t ∈ ls, Text.IsOneLine t := by
    simp [ls, hl.isOneLine, hl'.isOneLine]
  have hregexes : regexesOf false (ls.map (· ++ "\n")) = replicate 10 r ++ [r'] := by
    rw [regexesOf_eq, filterMap_map]
    simp [ls, hl.read, hl'.read]
  refine ⟨{ files := .folder [("corpus", .file (.text (unlines ls)))] }, ?_,
    ["out"], none, rfl, by simp⟩
  rw [load_interspersed hone (.refl ls) ⟨["corpus"], rfl⟩, hregexes]

/-- Ten patterns and one that was found in an unknown registry are in a file. The second of the two
batches is the first to be completed, and it comes back; the ten patterns have their lines. -/
theorem measureFile_accounts_unplaced :
    ∃ (h h' : Host) (work : List (List Regex)) (lines : List String),
      (loadBatches "corpus" false []).run h = (Except.ok work, h) ∧
      (measureBatches {} {} "out" [1] work).run h = (Except.ok (), h') ∧
      work.map List.length = [10, 1] ∧
      (measureFile {} "corpus" false {} [] "out" [1]).run h = (Except.ok (), h') ∧
      h'.Holds "out" (.text (Text.unlines lines)) ∧ lines.length = 10 := by
  obtain ⟨r, l, hl, hplaced⟩ := exists_placed_line
  obtain ⟨r', l', hl', hplaced'⟩ := exists_unplaced_line
  obtain ⟨h, hcorpus, hout⟩ := load_eleven hl hl'
  have hbatches : batches batchSize (List.replicate 10 r ++ [r']) =
      [List.replicate 10 r, [r']] := by
    rw [batches, batches, batches]
    rfl
  have hload : (loadBatches "corpus" false []).run h =
      (Except.ok [List.replicate 10 r, [r']], h) := by
    rw [loadBatches, run_bind_of_ok hcorpus, run_lift_bind (keepUsed_nil _), hbatches]
    rfl
  have hbatch : ∀ q ∈ List.replicate 10 r, q = r := fun _ => eq_of_mem_replicate
  have hwork : ∀ batch ∈ [List.replicate 10 r, [r']], Writable {} {} batch := by
    rw [forall_mem_cons, forall_mem_singleton]
    constructor
    · exact writable_unanalysed rfl fun q hq => hbatch q hq ▸ hl.brief
    · exact writable_unanalysed rfl (forall_mem_singleton.2 hl'.brief)
  obtain ⟨h', hmeasure⟩ := measureBatches_run hout hwork [1]
  obtain ⟨hrun, loaded, kept, rs, lines, hloaded, hkept, hholds, -, hrs⟩ :=
    measureFile_accounts hload hmeasure
  refine ⟨h, h', _, lines, hload, hmeasure, rfl, hrun, hholds, ?_⟩
  cases hcorpus.symm.trans hloaded
  cases (keepUsed_nil _).symm.trans hkept
  -- there are two results, and only the second is a batch that came back
  have hcut := hrs.cut
  rw [hbatches] at hcut
  obtain ⟨a, _, rfl, ha, hcut⟩ := map_eq_cons_iff.1 hcut
  obtain ⟨b, _, rfl, hb, hcut⟩ := map_eq_cons_iff.1 hcut
  cases map_eq_nil_iff.1 hcut
  obtain ⟨_, _, hmeasured⟩ := hrs.run_of_mem (r := a) (by simp)
  obtain ⟨_, _, hmeasured'⟩ := hrs.run_of_mem (r := b) (by simp)
  have hwhole : a.failed = false := by
    rw [Result.failed_unanalysed hmeasured, ha]
    exact fun q hq => hbatch q hq ▸ hplaced
  have hback : b.failed = true := by
    rw [← Bool.not_eq_false, Result.failed_unanalysed hmeasured', hb, forall_mem_singleton]
    exact hplaced'
  have hcount := hrs.count
  rw [filter_cons_of_neg (by simp [hwhole]), filter_cons_of_pos hback, filter_nil,
    map_singleton, sum_singleton, hb, length_singleton] at hcount
  simpa using hcount

end RegexCorpus.Measure
