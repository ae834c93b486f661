import RegexCorpus.Proofs.Project.SourceFiles

/-!
# Third-party files taken out in place

The lists of a table of source files are replaced one after the other by those of the project's own
files. What comes back is not the table but the list of the last language, as it was before; a table
without languages gives nothing back. A name that cannot be cut into components stops the replacement,
and the lists from there on stay as they are.
-/

namespace RegexCorpus
open List Outcome

/-! ### Names that can be judged -/

namespace Project

theorem looksVendored_str (name : String) :
    looksVendored (.str name) =
      if name = "" then .error .outOfRange
      else if Path.BeginsTwice name then .error .endless
      else .ok ((Path.directories name).any fun d => thirdPartyNames.contains (Text.lower d)) := by
  split_ifs with hempty htwice
  · rw [hempty]
    rfl
  · have hof : componentsOf (.str name) = .error .endless := by
      rw [componentsOf, Path.components?_eq_none_iff.mpr htwice]
    rw [looksVendored, hof]
    rfl
  · exact looksVendored_eq hempty htwice

end Project

namespace SourceFile

/-- A directory on the way to the file has a name for third-party code, in letters of either
case. -/
def isVendored (f : SourceFile) : Bool :=
  (Path.directories f.name).any fun d => Project.thirdPartyNames.contains (Text.lower d)

/-- The name is not empty and does not begin with two slashes. -/
def IsNamed (f : SourceFile) : Prop := f.name ≠ "" ∧ ¬Path.BeginsTwice f.name

instance (f : SourceFile) : Decidable f.IsNamed :=
  inferInstanceAs (Decidable (f.name ≠ "" ∧ ¬Path.BeginsTwice f.name))

/-- What is wrong with a name that cannot be judged. -/
def nameFault (f : SourceFile) : Fault := if f.name = "" then .outOfRange else .endless

theorem looksVendored_name {f : SourceFile} (h : f.IsNamed) :
    Project.looksVendored (.str f.name) = .ok f.isVendored :=
  Project.looksVendored_eq h.1 h.2

theorem looksVendored_nameFault {f : SourceFile} (h : ¬f.IsNamed) :
    Project.looksVendored (.str f.name) = .error f.nameFault := by
  rw [Project.looksVendored_str, nameFault]
  by_cases hempty : f.name = ""
  · rw [if_pos hempty, if_pos hempty]
  · have htwice : Path.BeginsTwice f.name := by
      by_contra htwice
      exact h ⟨hempty, htwice⟩
    rw [if_neg hempty, if_pos htwice, if_neg hempty]

theorem toValue_injective : Function.Injective toValue := by
  rintro ⟨name, code⟩ ⟨name', code'⟩ h
  simpa [toValue, Value.object] using h

end SourceFile

/-! ### One list -/

namespace Project
open SourceFile

variable {fs gs : List SourceFile} {f : SourceFile}

theorem ownFiles_map (h : ∀ f ∈ fs, f.IsNamed) :
    ownFiles (fs.map toValue) = .ok ((fs.filter (!·.isVendored)).map toValue) := by
  induction fs with
  | nil => rfl
  | cons f fs ih =>
    rw [forall_mem_cons] at h
    have hname : f.toValue.get "name" = .ok (.str f.name) := rfl
    rw [map_cons, ownFiles, hname, ok_bind, looksVendored_name h.1, ok_bind, ih h.2, ok_bind]
    cases hf : f.isVendored <;> simp [hf, pure, Except.pure]

/-- The first name that cannot be judged decides. -/
theorem ownFiles_map_of_not_named (h : ∀ f ∈ fs, f.IsNamed) (hf : ¬f.IsNamed) :
    ownFiles ((fs ++ f :: gs).map toValue) = .error f.nameFault := by
  induction fs with
  | nil =>
    have hname : f.toValue.get "name" = .ok (.str f.name) := rfl
    rw [nil_append, map_cons, ownFiles, hname, ok_bind, looksVendored_nameFault hf]
    rfl
  | cons g fs ih =>
    rw [forall_mem_cons] at h
    have hname : g.toValue.get "name" = .ok (.str g.name) := rfl
    rw [cons_append, map_cons, ownFiles, hname, ok_bind, looksVendored_name h.1, ok_bind, ih h.2]
    rfl

end Project

/-! ### The table -/

namespace SourceTable

def entries (t : SourceTable) : Entries :=
  t.map fun e => (.str e.1, .list (e.2.map SourceFile.toValue))

theorem toValue_eq (t : SourceTable) : t.toValue = .dict t.entries := by
  rw [toValue, Value.object, map_map]
  rfl

/-- The table without the files of third parties. -/
def unvendored (t : SourceTable) : SourceTable :=
  t.map fun e => (e.1, e.2.filter (!·.isVendored))

def IsNamed (t : SourceTable) : Prop := ∀ e ∈ t, ∀ f ∈ e.2, f.IsNamed

instance (t : SourceTable) : Decidable t.IsNamed :=
  inferInstanceAs (Decidable (∀ e ∈ t, ∀ f ∈ e.2, f.IsNamed))

/-- The list of the last language as data, or what there was before. -/
def lastOr (last : Option Value) (t : SourceTable) : Option Value :=
  (t.getLast?.map fun e => .list (e.2.map SourceFile.toValue)).or last

theorem lastOr_cons (last : Option Value) (language : String) (files : List SourceFile)
    (t : SourceTable) :
    lastOr last ((language, files) :: t) = lastOr (some (.list (files.map SourceFile.toValue))) t := by
  cases t with
  | nil => rfl
  | cons e t => simp [lastOr, getLast?_cons]

theorem lastOr_concat (last : Option Value) (language : String) (files : List SourceFile)
    (t : SourceTable) :
    lastOr last (t ++ [(language, files)]) = some (.list (files.map SourceFile.toValue)) := by
  simp [lastOr]

theorem put_toValue {done rest : SourceTable} {language : String} {files own : List SourceFile}
    (h : language ∉ done.map Prod.fst) :
    (toValue (done ++ (language, files) :: rest)).put (.str language)
        (.list (own.map SourceFile.toValue)) =
      .ok (toValue (done ++ (language, own) :: rest)) := by
  have hset : Entries.set (.str language) (.list (own.map SourceFile.toValue))
      (entries (done ++ (language, files) :: rest)) =
        entries (done ++ (language, own) :: rest) := by
    induction done with
    | nil =>
      rw [nil_append, entries, map_cons, Entries.set, if_pos (by simp [Atom.samePart_str])]
      rfl
    | cons e done ih =>
      rw [map_cons, mem_cons, not_or] at h
      rw [cons_append, entries, map_cons, Entries.set,
        if_neg (by simpa [Atom.samePart_str] using Ne.symm h.1)]
      exact congrArg _ (ih h.2)
  rw [toValue_eq, toValue_eq, ← hset]
  rfl

end SourceTable

/-! ### All lists -/

namespace Project
open SourceTable

variable {done before rest : SourceTable}

/-- The list of a language is replaced, and kept as it was for later. -/
theorem keepOwn_step {language : String} {files : List SourceFile}
    (hlanguage : language ∉ done.map Prod.fst) (h : ∀ f ∈ files, f.IsNamed) (last : Option Value) :
    (keepOwn (entries ((language, files) :: rest)) last).run
        (toValue (done ++ (language, files) :: rest)) =
      (keepOwn (entries rest) (some (.list (files.map SourceFile.toValue)))).run
        (toValue (done ++ (language, files.filter (!·.isVendored)) :: rest)) := by
  have hown : (do ownFiles (← (Value.list (files.map SourceFile.toValue)).parts) : Outcome _) =
      .ok ((files.filter (!·.isVendored)).map SourceFile.toValue) := ownFiles_map h
  rw [entries, map_cons, keepOwn, run_lift_bind hown, run_get_state_bind,
    run_lift_bind (put_toValue hlanguage), run_set_bind]
  rfl

theorem keepOwn_run (hkeys : ((done ++ before ++ rest).map Prod.fst).Nodup) (h : before.IsNamed)
    (last : Option Value) :
    (keepOwn (entries (before ++ rest)) last).run (toValue (done ++ (before ++ rest))) =
      (keepOwn (entries rest) (lastOr last before)).run
        (toValue (done ++ before.unvendored ++ rest)) := by
  induction before generalizing done last with
  | nil => simp [lastOr, unvendored]
  | cons e before ih =>
    obtain ⟨language, files⟩ := e
    rw [IsNamed, forall_mem_cons] at h
    have hlanguage : language ∉ done.map Prod.fst := by
      rw [append_assoc, map_append] at hkeys
      exact fun hmem => (nodup_append.mp hkeys).2.2 _ hmem _ (by simp) rfl
    have hkeys' : (((done ++ [(language, files.filter (!·.isVendored))]) ++ before ++ rest).map
        Prod.fst).Nodup := by
      simpa using hkeys
    rw [cons_append, keepOwn_step hlanguage h.1, append_cons, ih hkeys' h.2, lastOr_cons]
    simp [unvendored]

theorem keepOwn_nil (last : Option Value) (v : Value) :
    (keepOwn [] last).run v = (last.elim (.error .unassigned) .ok, v) := by
  cases last <;> rfl

/-- In a table with names that can be judged, each list loses the files of third parties and nothing
else. What comes back is the list of the last language as it was, so it holds none of these files only
if there is a last language and its list held none before. A name that cannot be judged stops this:
the lists before its own have lost their files by then, and the others have not. -/
theorem removeVendored_run {t : SourceTable} (hkeys : (t.map Prod.fst).Nodup) :
    (t.IsNamed →
      removeVendored.run t.toValue =
        ((lastOr none t).elim (.error .unassigned) .ok, t.unvendored.toValue) ∧
      ((∃ files : List SourceFile, (∀ f ∈ files, f.isVendored = false) ∧
          (removeVendored.run t.toValue).1 = .ok (.list (files.map SourceFile.toValue))) ↔
        ∃ (others : SourceTable) (language : String) (files : List SourceFile), t = others ++ [(language, files)] ∧
          ∀ f ∈ files, f.isVendored = false)) ∧
    ∀ (before after : SourceTable) (language : String) (fs : List SourceFile) (f : SourceFile)
      (gs : List SourceFile), t = before ++ (language, fs ++ f :: gs) :: after →
      before.IsNamed → (∀ g ∈ fs, g.IsNamed) → ¬f.IsNamed →
      removeVendored.run t.toValue =
        (.error f.nameFault, toValue (before.unvendored ++ (language, fs ++ f :: gs) :: after)) := by
  have hrun (before rest : SourceTable) (ht : t = before ++ rest) (hbefore : before.IsNamed) :
      removeVendored.run t.toValue =
        (keepOwn (entries rest) (lastOr none before)).run (toValue (before.unvendored ++ rest)) := by
    have hentries : t.toValue.entries = .ok t.entries := by
      rw [toValue_eq]
      rfl
    have hwalk := @keepOwn_run [] before rest (ht ▸ hkeys) hbefore none
    rw [removeVendored, run_get_state_bind, run_lift_bind hentries, ht]
    exact hwalk
  constructor
  · intro hnamed
    have hall : removeVendored.run t.toValue =
        ((lastOr none t).elim (.error .unassigned) .ok, t.unvendored.toValue) := by
      rw [hrun t [] (append_nil t).symm hnamed, append_nil]
      exact keepOwn_nil _ _
    refine ⟨hall, ?_⟩
    rw [hall]
    constructor
    · rintro ⟨files, hfiles, hlast⟩
      rcases eq_nil_or_concat t with rfl | ⟨others, ⟨language, lastFiles⟩, rfl⟩
      · cases hlast
      · rw [concat_eq_append] at hlast ⊢
        rw [lastOr_concat] at hlast
        have hsame := SourceFile.toValue_injective.list_map (Value.list.inj (Except.ok.inj hlast))
        exact ⟨others, language, lastFiles, rfl, hsame ▸ hfiles⟩
    · rintro ⟨others, language, files, rfl, hfiles⟩
      refine ⟨files, hfiles, ?_⟩
      rw [lastOr_concat]
      rfl
  · intro before after language fs f gs ht hbefore hfs hf
    have hown : (do ownFiles (← (Value.list ((fs ++ f :: gs).map SourceFile.toValue)).parts) :
        Outcome _) = .error f.nameFault := ownFiles_map_of_not_named hfs hf
    rw [hrun before _ ht hbefore, entries, map_cons, keepOwn, hown]
    rfl

/-- Two languages with a file of third parties each. -/
def twoLanguages : SourceTable :=
  [("javascript", [⟨"a.js", .int 0⟩, ⟨"node_modules/b/c.js", .int 1⟩]),
    ("typescript", [⟨"x/External/a.ts", .int 2⟩, ⟨"b.ts", .int 3⟩])]

/-- A third language whose file has a name that cannot be judged. -/
def twiceBegun : SourceTable := [("perl", [⟨"//a.pl", .int 4⟩])]

theorem removeVendored_twoLanguages :
    removeVendored.run twoLanguages.toValue =
      (.ok (.list [SourceFile.toValue ⟨"x/External/a.ts", .int 2⟩,
          SourceFile.toValue ⟨"b.ts", .int 3⟩]),
        SourceTable.toValue [("javascript", [⟨"a.js", .int 0⟩]), ("typescript", [⟨"b.ts", .int 3⟩])]) ∧
    (¬∃ files : List SourceFile, (∀ f ∈ files, f.isVendored = false) ∧
      (removeVendored.run twoLanguages.toValue).1 = .ok (.list (files.map SourceFile.toValue))) ∧
    removeVendored.run (SourceTable.toValue (twoLanguages ++ twiceBegun)) =
      (.error .endless, SourceTable.toValue ([("javascript", [⟨"a.js", .int 0⟩]),
        ("typescript", [⟨"b.ts", .int 3⟩])] ++ twiceBegun)) := by
  have hnamed : twoLanguages.IsNamed := by decide
  have hown : twoLanguages.unvendored =
      [("javascript", [⟨"a.js", .int 0⟩]), ("typescript", [⟨"b.ts", .int 3⟩])] := by rfl
  obtain ⟨hrun, hreturned⟩ := (@removeVendored_run twoLanguages (by decide)).1 hnamed
  have hstopped := (@removeVendored_run (twoLanguages ++ twiceBegun) (by decide)).2 twoLanguages []
    "perl" [] ⟨"//a.pl", .int 4⟩ [] rfl hnamed (by simp) (by decide)
  rw [hown] at hrun hstopped
  refine ⟨hrun, ?_, hstopped⟩
  rw [hreturned]
  rintro ⟨others, language, files, heq, hfiles⟩
  have hlast := congrArg getLast? heq
  rw [getLast?_concat] at hlast
  obtain ⟨-, rfl⟩ := Prod.mk.inj (Option.some.inj hlast)
  exact absurd (hfiles ⟨"x/External/a.ts", .int 2⟩ (by simp)) (by decide)

/-- The only file is one of third parties, and it comes back. -/
theorem removeVendored_vendored :
    removeVendored.run (SourceTable.toValue [("javascript", [⟨"vendor/a.js", .int 0⟩])]) =
      (.ok (.list [SourceFile.toValue ⟨"vendor/a.js", .int 0⟩]),
        SourceTable.toValue [("javascript", [])]) ∧
    removeVendored.run (SourceTable.toValue []) = (.error .unassigned, SourceTable.toValue []) := by
  constructor <;> rfl

end Project
end RegexCorpus
