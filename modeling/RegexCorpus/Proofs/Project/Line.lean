import RegexCorpus.Project.File
import RegexCorpus.Proofs.Record.Failure

/-!
# Lines of projects

A project that is read from a line has a value for every field, and each of them can be written
again. So it has a line, and so does the project with another text in one of its fields; from that
line the same values are read, up to the order of keys in them.
-/

namespace RegexCorpus.Project
open List Value Json

variable {ms : Members} {line : String} {p : Project}

/-! ### Projects of objects -/

/-- The project whose fields are set from the members of an object. -/
def ofMembers (ms : Members) : Project :=
  fields.setAll (fields.map (·.value ms)) { initialized := .bool true }

theorem entries_ofMembers (ms : Members) :
    fields.entries (ofMembers ms) = fields.map fun f => (f.name, some (f.value ms)) := rfl

theorem read_cases {line : Value} {room : ℕ} (h : Json.ofLine line room = .ok (.object ms))
    (htype : findMember ms "type" = some (.str typeName)) :
    (read line room).made {} = .ok (ofMembers ms) ∨ ∃ f ∈ fields, findMember ms f.name = none ∧
      (read line room).made {} = .error (.missingKey (.str f.name)) := by
  have hsame : require ((Value.str typeName).same (.str typeName)) = .ok () :=
    require_eq_ok.mpr (same_str.mpr rfl)
  rw [Edit.made, read, run_modify_bind, run_lift_bind h,
    run_lift_bind (get_object_eq_ok.mpr htype), run_lift_bind hsame]
  rcases fields.readFrom_object ms { initialized := .bool true } with
    hrun | ⟨f, hf, hnone, s, hrun⟩
  · rw [hrun]
    exact .inl rfl
  · rw [hrun]
    exact .inr ⟨f, hf, hnone, rfl⟩

theorem format : Format (fun room p => toLine p room) (fun room line => (read line room).made {})
    typeName fields (·.initialized = .bool true) where
  nodup := by decide
  toLine_eq := by
    intro p hinit room
    rw [toLine, hinit]
    rfl
  ofLine_eq := by
    intro room line ms h htype
    exact (read_cases h htype).imp (fun hread => ⟨_, hread, rfl, rfl⟩) id

theorem ofLine_eq_ok (h : ofLine line = .ok p) :
    ∃ ms, ofText line = .ok (.object ms) ∧
      findMember ms "type" = some (.str typeName) ∧ p = ofMembers ms := by
  have hparts : (read (.str line)).run {} = (.ok (), p) := Edit.made_eq_ok.mp h
  rw [read, run_modify_bind, ofLine_str] at hparts
  obtain ⟨obj, hobj, hparts⟩ := run_lift_bind_eq_ok.mp hparts
  obtain ⟨ms, rfl, -⟩ := ofText_sound hobj
  obtain ⟨type, hget, hparts⟩ := run_lift_bind_eq_ok.mp hparts
  obtain ⟨_, hsame, -⟩ := run_lift_bind_eq_ok.mp hparts
  obtain rfl := same_str.mp (require_eq_ok.mp hsame)
  have htype := get_object_eq_ok.mp hget
  have hline : Json.ofLine (.str line) = .ok (.object ms) := by rw [ofLine_str, hobj]
  refine ⟨ms, hobj, htype, ?_⟩
  rcases read_cases hline htype with hread | ⟨f, -, -, hread⟩
  · exact Except.ok.inj (h.symm.trans hread)
  · cases h.symm.trans hread

theorem ofLine_of_members (hobj : ofText line = .ok (.object ms))
    (htype : findMember ms "type" = some (.str typeName))
    (hkeys : ∀ f ∈ fields, findMember ms f.name ≠ none) : ofLine line = .ok (ofMembers ms) := by
  have hline : Json.ofLine (.str line) = .ok (.object ms) := by rw [ofLine_str, hobj]
  rcases read_cases hline htype with hread | ⟨f, hf, hnone, -⟩
  · exact hread
  · exact absurd hnone (hkeys f hf)

/-! ### Lines of projects -/

/-- Every field has a value that can be written. -/
structure Complete (p : Project) : Prop where
  initialized_eq : p.initialized = .bool true
  type_eq : p.type = .str typeName
  fits : ∀ f ∈ fields.entries p, ∃ v, f.2 = some v ∧ v.FitsRoom (Json.nestingLimit - 1)

/-- What is read from a line can be written again. -/
theorem complete_of_ofLine (h : ofLine line = .ok p) : p.Complete := by
  obtain ⟨ms, hobj, htype, rfl⟩ := ofLine_eq_ok h
  obtain ⟨ns, hns, hfits⟩ := ofText_sound hobj
  cases object_injective hns
  refine ⟨rfl, ?_, fits_of_read ?_ hfits (entries_ofMembers ms)⟩
  · change (findMember ms "type").getD .null = .str typeName
    rw [htype, Option.getD_some]
  · simp [fields, noRegexPath]

/-- The same values in every field, up to the order of keys. -/
def Same (p q : Project) : Prop := fields.Same p q

theorem Complete.exists_line (h : p.Complete) :
    ∃ line q, p.toLine = .ok line ∧ ofLine line = .ok q ∧ p.Same q := by
  have htype : ("type", some (.str typeName)) ∈ fields.entries p := by
    rw [← h.type_eq]
    exact mem_cons_self
  have hkept := format.kept h.initialized_eq
    (fun e he => (h.fits e he).imp fun v hv => ⟨hv.1, hv.2.isJson⟩) htype
  have hwithin : ∀ v ∈ (fields.values p).filterMap id, v.Within (nestingLimit - 1) := fun v hv =>
    within_of_fits h.fits hv
  obtain ⟨line, hline⟩ := (hkept.line _).mpr hwithin
  obtain ⟨q, hq, ⟨-, hsame⟩, -⟩ := hkept.back _ line hline _ hwithin
  exact ⟨line, q, hline, hq, hsame⟩

/-! ### Many lines -/

theorem ofLine?_eq_some : ofLine? line = some p ↔ ofLine line = .ok p := by
  unfold ofLine?
  cases ofLine line <;> simp [Except.toOption]

theorem ofLine?_empty : ofLine? "" = none := rfl

/-- Blank lines need no rule of their own, since no project stands on them. -/
theorem ofLines_eq (lines : List String) :
    ofLines lines = lines.filterMap fun line => ofLine? (Text.trim line) := by
  rw [ofLines, filterMap_filter, filterMap_map]
  refine filterMap_congr fun line _ => ?_
  rw [Function.comp_apply]
  cases hempty : (Text.trim line).isEmpty with
  | false => rfl
  | true =>
    rw [String.isEmpty_iff] at hempty
    rw [hempty, ofLine?_empty]
    rfl

theorem complete_of_mem_ofLines {lines : List String} (hp : p ∈ ofLines lines) : p.Complete := by
  rw [ofLines_eq, mem_filterMap] at hp
  obtain ⟨line, -, hline⟩ := hp
  exact complete_of_ofLine (ofLine?_eq_some.mp hline)

end RegexCorpus.Project
