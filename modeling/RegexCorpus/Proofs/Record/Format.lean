import RegexCorpus.Proofs.Record.Filling

/-!
# Records that a line keeps

A record all of whose fields are data stands on its line as the object of these fields, and is
filled from such an object field by field. So it is read back from the line, and the record that
comes back has the same line.

* `Format` — how the records of a type are written and read;
* `KeptByLine` — what follows for a record, with `Format.kept` for the proof.
-/

namespace RegexCorpus
open List Value Outcome Json

variable {σ : Type}

/-- The fields of both records have been set, to the same values up to the order of keys. -/
def DataFields.Same (fs : DataFields σ) (r s : σ) : Prop :=
  ∃ ms ns, fs.entries r = ms.map (fun m => (m.1, some m.2)) ∧
    fs.entries s = ns.map (fun n => (n.1, some n.2)) ∧ Corresponding Value.Reordered ms ns

theorem DataFields.Same.mem_entries {fs : DataFields σ} {r s : σ} (h : fs.Same r s)
    {key text : String} (hr : (key, some (.str text)) ∈ fs.entries r) :
    (key, some (.str text)) ∈ fs.entries s := by
  obtain ⟨ms, ns, hms, hns, hvalues⟩ := h
  rw [hms] at hr
  obtain ⟨⟨key, v⟩, hm, he⟩ := mem_map.mp hr
  cases he
  obtain ⟨w, hw, hreordered⟩ := hvalues.mem hm
  obtain rfl := eq_of_reordered_atom hreordered
  rw [hns]
  exact mem_map_of_mem hw

/-- The record has a line exactly when there is room for its values. Wherever there is room for them,
the same record is read from the line, and it has the same line. -/
structure KeptByLine (toLine : ℕ → σ → Outcome String) (ofLine : ℕ → Value → Outcome σ) (r : σ)
    (values : List Value) (same : σ → Prop) : Prop where
  line : ∀ room, (∃ line, toLine (room + 1) r = .ok line) ↔ ∀ v ∈ values, v.Within room
  back : ∀ room line, toLine room r = .ok line → ∀ room', (∀ v ∈ values, v.Within room') →
    ∃ s, ofLine (room' + 1) (.str line) = .ok s ∧ same s ∧ toLine room s = .ok line

/-- A record is read whose fields are set from the members of an object, unless a needed key is
missing among them. -/
def ReadsFields (fs : DataFields σ) (Own : σ → Prop) (ms : Members)
    (outcome : Outcome σ) : Prop :=
  (∃ r, outcome = .ok r ∧ Own r ∧ fs.entries r = fs.map fun f => (f.name, some (f.value ms))) ∨
    ∃ f ∈ fs, findMember ms f.name = none ∧ outcome = .error (.missingKey (.str f.name))

/-- How the records of a type are written and read. `Own` holds of the records of the type that have
been filled. -/
structure Format (toLine : ℕ → σ → Outcome String) (ofLine : ℕ → Value → Outcome σ) (type : String)
    (fs : DataFields σ) (Own : σ → Prop) : Prop where
  nodup : (fs.map (·.name)).Nodup
  toLine_eq : ∀ {r}, Own r → ∀ room, toLine room r = do Json.toLine (← members (fs.entries r)) room
  ofLine_eq : ∀ {room line ms}, Json.ofLine line room = .ok (.object ms) →
    findMember ms "type" = some (.str type) → ReadsFields fs Own ms (ofLine room line)

section
variable {fs : DataFields σ} {r : σ} {ms ns : Members} {room : ℕ}

theorem keys_of_entries (h : fs.entries r = ms.map fun m => (m.1, some m.2)) :
    ms.map Prod.fst = fs.map (·.name) := by
  have hnames := congrArg (List.map Prod.fst) h
  rw [DataFields.entries, map_map, map_map] at hnames
  exact hnames.symm

theorem values_of_entries (h : fs.entries r = ms.map fun m => (m.1, some m.2)) :
    (fs.values r).filterMap id = ms.map Prod.snd := by
  have hvalues : fs.values r = (ms.map Prod.snd).map some := by
    have hsnd := congrArg (List.map Prod.snd) h
    rw [DataFields.entries, map_map, map_map] at hsnd
    rw [map_map]
    exact hsnd
  rw [hvalues, filterMap_map]
  exact filterMap_some

/-- What was read can be written again. -/
theorem fits_of_read (hdefault : ∀ f ∈ fs, Value.FitsRoom room (f.default.getD .null))
    (hfits : Value.FitsRoom (room + 1) (.object ms))
    (h : fs.entries r = fs.map fun f => (f.name, some (f.value ms))) :
    ∀ e ∈ fs.entries r, ∃ v, e.2 = some v ∧ v.FitsRoom room := by
  rw [h]
  exact forall_mem_map.mpr fun f hf => ⟨_, rfl, fitsRoom_getD hfits f.name (hdefault f hf)⟩

theorem within_of_fits (h : ∀ e ∈ fs.entries r, ∃ v, e.2 = some v ∧ v.FitsRoom room)
    {v : Value} (hv : v ∈ (fs.values r).filterMap id) : v.Within room := by
  obtain ⟨_, hget, hv⟩ := mem_filterMap.mp hv
  obtain ⟨f, hf, rfl⟩ := mem_map.mp hget
  obtain ⟨w, hw, hfits⟩ := h _ (mem_map_of_mem hf)
  cases hw.symm.trans hv
  exact hfits.within

namespace Format
variable {toLine : ℕ → σ → Outcome String} {ofLine : ℕ → Value → Outcome σ} {type : String}
  {Own : σ → Prop}

theorem isJson (F : Format toLine ofLine type fs Own)
    (hms : fs.entries r = ms.map fun m => (m.1, some m.2)) (hdata : ∀ m ∈ ms, m.2.IsJson) :
    Value.IsJson (.object ms) := by
  refine .object ?_ hdata
  rw [keys_of_entries hms]
  exact F.nodup

theorem toLine_object (F : Format toLine ofLine type fs Own) (hown : Own r)
    (hms : fs.entries r = ms.map fun m => (m.1, some m.2)) (room : ℕ) :
    toLine room r = Json.toLine (.object ms) room := by
  rw [F.toLine_eq hown, members_eq_ok.mpr ⟨ms, hms, rfl⟩]
  rfl

/-- A record is read from an object that has the type and all the fields. -/
theorem exists_of_members (F : Format toLine ofLine type fs Own) {line : Value}
    (hobj : Json.ofLine line room = .ok (.object ns))
    (htype : findMember ns "type" = some (.str type))
    (hfound : ∀ f ∈ fs, findMember ns f.name ≠ none) :
    ∃ s, ofLine room line = .ok s ∧ Own s ∧
      fs.entries s = fs.map fun f => (f.name, some (f.value ns)) := by
  rcases F.ofLine_eq hobj htype with hs | ⟨f, hf, hnone, -⟩
  · exact hs
  · exact absurd hnone (hfound f hf)

theorem kept (F : Format toLine ofLine type fs Own) (hown : Own r)
    (hdata : ∀ e ∈ fs.entries r, ∃ v, e.2 = some v ∧ v.IsJson)
    (htype : ("type", some (.str type)) ∈ fs.entries r) :
    KeptByLine toLine ofLine r ((fs.values r).filterMap id) fun s => Own s ∧ fs.Same r s := by
  obtain ⟨ms, hms, hdata⟩ := exists_members hdata
  have hobject := F.isJson hms hdata
  have hkeys := keys_of_entries hms
  rw [values_of_entries hms]
  refine ⟨fun room => ?_, fun room line hl room' hroom => ?_⟩
  · rw [F.toLine_object hown hms, exists_toLine_iff hobject, forall_mem_map]
  · rw [F.toLine_object hown hms] at hl
    have hl' := toLine_of_within hobject hl (within_object.mpr (forall_mem_map.mp hroom))
    obtain ⟨ns, hread, hfound⟩ := exists_reading hobject hl'
    have hmember : ("type", .str type) ∈ ms := by
      rw [hms] at htype
      obtain ⟨⟨key, v⟩, hm, he⟩ := mem_map.mp htype
      cases he
      exact hm
    obtain ⟨w, hw, hreordered⟩ := hfound _ hmember
    obtain rfl := eq_of_reordered_atom hreordered
    have hall : ∀ f ∈ fs, findMember ns f.name ≠ none := by
      intro f hf
      have hkey : f.name ∈ ms.map Prod.fst := by
        rw [hkeys]
        exact mem_map_of_mem hf
      obtain ⟨m, hm, hname⟩ := mem_map.mp hkey
      obtain ⟨w, hw, -⟩ := hfound m hm
      rw [← hname, hw]
      simp
    obtain ⟨s, hs, hown', hentries⟩ := F.exists_of_members hread hw hall
    have hvalues := corresponding_values fs hkeys hfound
    have hns : fs.entries s =
        (fs.map fun f => (f.name, f.value ns)).map fun n => (n.1, some n.2) := by
      rw [hentries, map_map]
      rfl
    refine ⟨s, hs, ⟨hown', ms, _, hms, hns, hvalues⟩, ?_⟩
    have hnodup : (ms.map Prod.fst).Nodup := by
      rw [hkeys]
      exact F.nodup
    rw [F.toLine_object hown' hns, ← toLine_congr (hvalues.reordered hnodup) hobject, hl]

end Format
end
end RegexCorpus
