import RegexCorpus.Proofs.Json.Reader
import RegexCorpus.Proofs.Record.Edit

/-!
# Filling a record

A record is filled by steps, each of which takes a reading and sets a field to it, and the first
reading that fails ends the run. The fields of an object are set in this way, with defaults or
without.

* `fillIn_cases` — the fields before the first reading that fails are set, and no others;
* `DataFields.Lawful` — every field holds what it was set to, and nothing else is touched;
* `DataFields.readFrom_object` — all fields are set from an object, unless a needed key is missing.
-/

namespace RegexCorpus
open Value Outcome Json

variable {σ ω : Type}
variable {v : Value} {ms ns : Members} {room : ℕ}

/-- A reading and the field that is set to it. -/
abbrev FillStep (σ : Type) := Outcome Value × (Value → σ → σ)

/-! ### Running the steps -/

open List hiding beq_eq_decide

theorem fillIn_ok_run (v : Value) (set : Value → σ → σ) (steps : List (FillStep σ)) (s : σ) :
    (fillIn ((.ok v, set) :: steps)).run s = (fillIn steps).run (set v s) := rfl

theorem fillIn_ok_bind_run (v : Value) (set : Value → σ → σ) (steps : List (FillStep σ))
    (ending : Edit σ Unit) (s : σ) :
    (fillIn ((.ok v, set) :: steps) >>= fun _ => ending).run s =
      (fillIn steps >>= fun _ => ending).run (set v s) := by
  rw [run_bind, fillIn_ok_run, ← run_bind]

theorem fillIn_error_run (e : Fault) (set : Value → σ → σ) (steps : List (FillStep σ)) (s : σ) :
    (fillIn ((.error e, set) :: steps)).run s = (.error e, s) := rfl

theorem fillIn_cons_eq_ok {reading : Outcome Value} {set : Value → σ → σ}
    {steps : List (FillStep σ)} {s s' : σ} {u : Unit} :
    (fillIn ((reading, set) :: steps)).run s = (.ok u, s') ↔
      ∃ v, reading = .ok v ∧ (fillIn steps).run (set v s) = (.ok u, s') := by
  cases reading with
  | error e =>
    constructor
    · intro h
      cases h
    · rintro ⟨_, h, -⟩
      cases h
  | ok v =>
    rw [fillIn_ok_run]
    simp

theorem fillIn_append (steps steps' : List (FillStep σ)) :
    fillIn (steps ++ steps') = fillIn steps >>= fun _ => fillIn steps' := by
  funext s
  change (fillIn (steps ++ steps')).run s = (fillIn steps >>= fun _ => fillIn steps').run s
  induction steps generalizing s with
  | nil => rfl
  | cons step steps ih =>
    obtain ⟨_ | v, set⟩ := step
    · rfl
    · rw [cons_append, fillIn_ok_run, ih, run_bind, run_bind, fillIn_ok_run]

/-- The fields up to the first reading that fails are set, and no others. -/
theorem fillIn_cases {readings : List (Outcome Value)} {fs : DataFields σ}
    (hlength : readings.length ≤ fs.length) (s : σ) :
    (∃ vs, readings = vs.map .ok ∧
      (fillIn (readings.zip (fs.map (·.set)))).run s = (.ok (), fs.setAll vs s)) ∨
    ∃ vs e rest, readings = vs.map .ok ++ .error e :: rest ∧
      (fillIn (readings.zip (fs.map (·.set)))).run s = (.error e, fs.setAll vs s) := by
  induction readings generalizing fs s with
  | nil =>
    refine .inl ⟨[], rfl, ?_⟩
    rw [zip_nil_left, DataFields.setAll, zip_nil_right]
    rfl
  | cons reading readings ih =>
    cases fs with
    | nil => simp at hlength
    | cons f fs =>
      cases reading with
      | error e => exact .inr ⟨[], e, readings, rfl, rfl⟩
      | ok v =>
        rw [map_cons, zip_cons_cons, fillIn_ok_run]
        rcases ih (Nat.le_of_succ_le_succ hlength) (f.set v s) with
          ⟨vs, rfl, hrun⟩ | ⟨vs, e, rest, rfl, hrun⟩
        · exact .inl ⟨v :: vs, rfl, hrun⟩
        · exact .inr ⟨v :: vs, e, rest, rfl, hrun⟩

/-! ### Readings from an object -/

theorem Value.getOr_of_get {obj : Value} {key : String} (h : obj.get key = .ok v)
    (default : Value) : obj.getOr key default = .ok v := by
  rw [getOr, has_of_get h, ok_bind, if_pos rfl, h]

def findMember (ms : Members) (key : String) : Option Value :=
  Entries.find? (entriesOf ms) (.str key)

section
variable (ms : Members) (key : String)

theorem get_object : (object ms).get key =
    match findMember ms key with
    | some v => .ok v
    | none => .error (.missingKey (.str key)) := by
  rfl

theorem has_object : (object ms).has (.str key) = .ok (findMember ms key).isSome := by
  rw [findMember, ← Entries.has_eq_isSome]
  rfl

theorem getOr_object (default : Value) :
    (object ms).getOr key default = .ok ((findMember ms key).getD default) := by
  rw [getOr, has_object, ok_bind]
  cases h : findMember ms key with
  | none => rfl
  | some v =>
    rw [Option.isSome_some, if_pos rfl, get_object, h]
    rfl

end

theorem get_object_eq_ok {key : String} :
    (object ms).get key = .ok v ↔ findMember ms key = some v := by
  rw [get_object]
  cases findMember ms key <;> simp

theorem mem_of_findMember {key : String}
    (h : findMember ms key = some v) : (key, v) ∈ ms := by
  induction ms with
  | nil => cases h
  | cons m ms ih =>
    rw [findMember, entriesOf_cons, Entries.find?_cons_str] at h
    split_ifs at h with hkey
    · obtain rfl := Option.some.inj h
      obtain rfl := Atom.str.inj hkey
      exact mem_cons_self
    · exact mem_cons_of_mem _ (ih h)

theorem findMember_eq (ms : Members) (key : String) :
    findMember ms key = (ms.find? (·.1 == key)).map Prod.snd := by
  have hkey : (fun e : Atom × Value => e.1.samePart (.str key)) ∘ (fun m => (.str m.1, m.2)) =
      fun m : String × Value => m.1 == key := by
    funext m
    simp [Atom.samePart_str, beq_eq_decide]
  rw [findMember, Entries.find?, entriesOf, find?_map, hkey, Option.map_map]
  rfl

theorem parts_object (ms : Members) :
    (object ms).parts = .ok (ms.map fun m => .str m.1) := by
  rw [object, parts, map_map]
  rfl

/-! ### Data fields -/

namespace DataField
variable (f : DataField σ) (ms : Members)

/-- What the field is set to from an object with these members. -/
def value : Value := (findMember ms f.name).getD (f.default.getD .null)

theorem reading_cases : f.reading (.object ms) = .ok (f.value ms) ∨
    f.reading (.object ms) = .error (.missingKey (.str f.name)) ∧ findMember ms f.name = none := by
  rw [reading, value]
  cases f.default with
  | some d => exact .inl (getOr_object ms f.name d)
  | none =>
    simp only [get_object]
    cases findMember ms f.name with
    | some v => exact .inl rfl
    | none => exact .inr ⟨rfl, rfl⟩

end DataField

/-- The fields are at the places from `k` on of the values; setting one changes nothing else. -/
def SetInOrder (values : σ → List (Option Value)) (others : σ → ω) : ℕ → DataFields σ → Prop
  | _, [] => True
  | k, f :: fs =>
    (∀ v s, values (f.set v s) = (values s).set k (some v) ∧ others (f.set v s) = others s) ∧
      SetInOrder values others (k + 1) fs

section
variable {values : σ → List (Option Value)} {others : σ → ω} {k : ℕ} {fs : DataFields σ}

theorem SetInOrder.append {gs : DataFields σ} (h : SetInOrder values others k fs)
    (h' : SetInOrder values others (k + fs.length) gs) :
    SetInOrder values others k (fs ++ gs) := by
  induction fs generalizing k with
  | nil => exact h'
  | cons f fs ih =>
    refine ⟨h.1, ih h.2 ?_⟩
    rw [length_cons] at h'
    rwa [Nat.add_right_comm]

theorem SetInOrder.setAll (h : SetInOrder values others k fs) {vs : List Value}
    (hfields : vs.length ≤ fs.length) {s : σ} (hvalues : k + vs.length ≤ (values s).length) :
    values (fs.setAll vs s) =
        (values s).take k ++ (vs.map some ++ (values s).drop (k + vs.length)) ∧
      others (fs.setAll vs s) = others s := by
  induction vs generalizing k fs s with
  | nil =>
    cases fs <;> simp [DataFields.setAll]
  | cons v vs ih =>
    cases fs with
    | nil => simp at hfields
    | cons f fs =>
      simp only [length_cons] at hfields hvalues
      obtain ⟨hset, hothers⟩ := h.1 v s
      have hstep : DataFields.setAll (f :: fs) (v :: vs) s =
          DataFields.setAll fs vs (f.set v s) := rfl
      have hplaces : k + 1 + vs.length ≤ (values (f.set v s)).length := by
        rw [hset, length_set]
        omega
      obtain ⟨hih, hothers'⟩ := ih h.2 (by omega) hplaces
      refine ⟨?_, by rw [hstep, hothers', hothers]⟩
      rw [hstep, hih, hset, take_succ_eq_append_getElem (by rw [length_set]; omega),
        drop_set_of_lt (by omega)]
      simp [take_set_of_le, Nat.add_right_comm, Nat.add_assoc]

end

namespace DataFields
variable {fs : DataFields σ} {others : σ → ω}

def values (fs : DataFields σ) (s : σ) : List (Option Value) := fs.map (·.get s)

/-- Every field holds what it was set to last, and setting it touches neither the other fields nor
the rest of the record. -/
def Lawful (fs : DataFields σ) (others : σ → ω) : Prop := SetInOrder fs.values others 0 fs

theorem Lawful.setAll (h : fs.Lawful others) {vs : List Value} (hlength : vs.length ≤ fs.length)
    (s : σ) : fs.values (fs.setAll vs s) = vs.map some ++ (fs.values s).drop vs.length ∧
      others (fs.setAll vs s) = others s := by
  have hplaces : 0 + vs.length ≤ (fs.values s).length := by
    rw [values, length_map]
    omega
  simpa using SetInOrder.setAll h hlength hplaces

theorem entries_eq (fs : DataFields σ) (s : σ) :
    fs.entries s = (fs.map (·.name)).zip (fs.values s) := by
  rw [entries, values, zip_map']

/-- Setting all fields after the first keeps that one and the rest of the record. -/
theorem Lawful.entries_setAll {f : DataField σ} (h : Lawful (f :: fs) others) {vs : List Value}
    (hlength : vs.length = fs.length) (s : σ) :
    fs.entries (fs.setAll vs s) = ((fs.map (·.name)).zip vs).map (fun m => (m.1, some m.2)) ∧
      f.get (fs.setAll vs s) = f.get s ∧ others (fs.setAll vs s) = others s := by
  have hplaces : 1 + vs.length ≤ (values (f :: fs) s).length := by simp [values, hlength, add_comm]
  obtain ⟨hvalues, hothers⟩ := h.2.setAll hlength.le hplaces
  rw [drop_of_length_le (by simp [values, hlength, add_comm]), append_nil] at hvalues
  simp only [values, map_cons, take_succ_cons, take_zero, cons_append, nil_append,
    cons.injEq] at hvalues
  refine ⟨?_, hvalues.1, hothers⟩
  rw [entries_eq, values, hvalues.2, zip_map_right]
  rfl

theorem setAll_append {fs : DataFields σ} {vs : List Value} (hlength : vs.length = fs.length)
    (gs : DataFields σ) (ws : List Value) (s : σ) :
    DataFields.setAll (fs ++ gs) (vs ++ ws) s = gs.setAll ws (fs.setAll vs s) := by
  rw [setAll, zip_append hlength.symm, foldl_append]
  rfl

theorem readFrom_eq (fs : DataFields σ) (obj : Value) :
    fs.readFrom obj = fillIn ((fs.map (·.reading obj)).zip (fs.map (·.set))) := by
  rw [readFrom, zip_map']

/-- All fields are set from an object, unless a key is missing that is needed. -/
theorem readFrom_object (fs : DataFields σ) (ms : Members) (s : σ) :
    (fs.readFrom (.object ms)).run s = (.ok (), fs.setAll (fs.map (·.value ms)) s) ∨
      ∃ f ∈ fs, findMember ms f.name = none ∧ ∃ s',
        (fs.readFrom (.object ms)).run s = (.error (.missingKey (.str f.name)), s') := by
  rw [readFrom]
  induction fs generalizing s with
  | nil => exact .inl rfl
  | cons f fs ih =>
    rw [map_cons]
    rcases f.reading_cases ms with h | ⟨h, hnone⟩
    · rw [h, fillIn_ok_run]
      refine (ih (f.set (f.value ms) s)).imp id ?_
      rintro ⟨g, hg, hrun⟩
      exact ⟨g, mem_cons_of_mem _ hg, hrun⟩
    · rw [h, fillIn_error_run]
      exact .inr ⟨f, mem_cons_self, hnone, s, rfl⟩

end DataFields

/-! ### The fields of a record on its line -/

variable {fs : List (String × Option Value)}

theorem members_eq_ok :
    members fs = .ok v ↔ ∃ ms : Members,
      fs = ms.map (fun m => (m.1, some m.2)) ∧ v = .object ms := by
  have hfield (f : String × Option Value) (m : String × Value) :
      (do return (f.1, ← field f.2) : Outcome (String × Value)) = .ok m ↔ f = (m.1, some m.2) := by
    obtain ⟨k, w⟩ := f
    simp only [bind_eq_ok, field_eq_ok, pure_eq_ok]
    constructor
    · rintro ⟨x, rfl, rfl⟩
      rfl
    · intro h
      obtain ⟨rfl, rfl⟩ := Prod.mk.inj h
      exact ⟨_, rfl, rfl⟩
  rw [members, bind_eq_ok]
  constructor
  · rintro ⟨ms, hms, hv⟩
    refine ⟨ms, ?_, (pure_eq_ok.mp hv).symm⟩
    have heq := (mapM_eq_ok.mp hms).imp fun f m h => (hfield f m).mp h
    rwa [← forall₂_map_right_iff, forall₂_eq_eq_eq] at heq
  · rintro ⟨ms, rfl, rfl⟩
    refine ⟨ms, mapM_eq_ok.mpr ?_, rfl⟩
    rw [forall₂_map_left_iff, forall₂_same]
    exact fun m _ => (hfield _ m).mpr rfl

theorem exists_members {P : Value → Prop} (h : ∀ f ∈ fs, ∃ v, f.2 = some v ∧ P v) :
    ∃ ms : Members, fs = ms.map (fun m => (m.1, some m.2)) ∧ ∀ m ∈ ms, P m.2 := by
  induction fs with
  | nil => exact ⟨[], rfl, by simp⟩
  | cons f fs ih =>
    rw [forall_mem_cons] at h
    obtain ⟨v, hv, hP⟩ := h.1
    obtain ⟨ms, rfl, hms⟩ := ih h.2
    exact ⟨(f.1, v) :: ms, by rw [map_cons, ← hv], forall_mem_cons.mpr ⟨hP, hms⟩⟩

theorem toLine_congr (h : Value.Reordered (.object ms) (.object ns))
    (hms : Value.IsJson (.object ms)) (room : ℕ) :
    toLine (.object ms) room = toLine (.object ns) room := by
  rw [toLine, toLine, h.sorted_eq hms (h.ofAtoms hms)]

theorem exists_reading (hms : Value.IsJson (.object ms)) {line : String}
    (hline : toLine (.object ms) room = .ok line) :
    ∃ ns, ofLine (.str line) room = .ok (.object ns) ∧
      ∀ m ∈ ms, ∃ w, findMember ns m.1 = some w ∧ m.2.Reordered w := by
  obtain ⟨ns, hns⟩ := exists_isLineOf hms hline
  refine ⟨ns, by rw [ofLine_str, hns.ofText le_rfl], fun m hm => ?_⟩
  obtain ⟨w, hw, hreordered⟩ := get_of_isLineOf hns hm
  exact ⟨w, get_object_eq_ok.mp hw, hreordered⟩

/-- Members whose values agree, key by key, make objects that differ in the order of keys only. -/
theorem Corresponding.reordered
    (h : Corresponding Value.Reordered ms ns) (hkeys : (ms.map Prod.fst).Nodup) :
    Value.Reordered (.object ms) (.object ns) := by
  refine reordered_object.mpr ⟨by rw [h.keys], fun k v w hv hw => ?_⟩
  obtain ⟨w', hw', hvw⟩ := h.mem hv
  rw [h.keys] at hkeys
  rwa [value_unique hkeys hw hw']

theorem corresponding_values (fs : DataFields σ) (hkeys : ms.map Prod.fst = fs.map (·.name))
    (h : ∀ m ∈ ms, ∃ w, findMember ns m.1 = some w ∧ m.2.Reordered w) :
    Corresponding Value.Reordered ms (fs.map fun f => (f.name, f.value ns)) := by
  induction ms generalizing fs with
  | nil =>
    obtain rfl : fs = [] := by simpa using hkeys.symm
    exact .nil
  | cons m ms ih =>
    cases fs with
    | nil => simp at hkeys
    | cons f fs =>
      rw [map_cons, map_cons, cons.injEq] at hkeys
      rw [forall_mem_cons] at h
      obtain ⟨w, hw, hmw⟩ := h.1
      refine .cons ⟨hkeys.1, ?_⟩ (ih fs hkeys.2 h.2)
      show m.2.Reordered ((findMember ns f.name).getD (f.default.getD .null))
      rwa [← hkeys.1, hw]

theorem exists_toLine_iff (h : Value.IsJson (.object ms)) (room : ℕ) :
    (∃ line, toLine (.object ms) (room + 1) = .ok line) ↔ ∀ m ∈ ms, m.2.Within room := by
  obtain ⟨ns, -, hline⟩ := toLine_object h
  rw [← within_object]
  constructor
  · rintro ⟨line, hl⟩
    exact ((hline _ line).mp hl).1
  · intro hlimit
    exact ⟨_, (hline _ _).mpr ⟨hlimit, rfl⟩⟩

theorem Value.FitsRoom.exists_room (h : Value.FitsRoom room (.object ms)) : ∃ n, room = n + 1 := by
  cases room with
  | zero => cases h.within
  | succ n => exact ⟨n, rfl⟩

theorem fitsRoom_member (h : Value.FitsRoom (room + 1) (.object ms))
    {m : String × Value} (hm : m ∈ ms) : m.2.FitsRoom room :=
  ⟨(ofAtoms_object.mp h.isJson).2 m hm, within_object.mp h.within m hm⟩

theorem fitsRoom_getD (h : Value.FitsRoom (room + 1) (.object ms))
    (key : String) {default : Value} (hdefault : default.FitsRoom room) :
    Value.FitsRoom room ((findMember ms key).getD default) := by
  cases hv : findMember ms key with
  | none => exact hdefault
  | some v => exact fitsRoom_member h (mem_of_findMember hv)

theorem fitsRoom_get {w : Value} {key : String} (h : v.FitsRoom (room + 1))
    (hw : v.get key = .ok w) : w.FitsRoom room := by
  obtain ⟨es, rfl, -⟩ := get_eq_ok.mp hw
  obtain ⟨ms, rfl⟩ : ∃ ms, es = entriesOf ms := by
    cases h.isJson with
    | @object ms _ _ => exact ⟨ms, rfl⟩
  exact fitsRoom_member h (mem_of_findMember (get_object_eq_ok.mp hw))

/-- Items, keys and characters of what was read can be written again. -/
theorem fitsRoom_parts {items : List Value} (h : v.FitsRoom (room + 1))
    (hitems : v.parts = .ok items) : ∀ x ∈ items, x.FitsRoom room := by
  cases v with
  | atom a =>
    cases a with
    | str s =>
      cases hitems
      exact forall_mem_map.mpr fun c _ => .str _
    | _ => cases hitems
  | list xs =>
    cases hitems
    exact fun x hx => ⟨ofAtoms_list.mp h.isJson x hx, within_list.mp h.within x hx⟩
  | dict es =>
    cases h.isJson with
    | @object ms _ _ =>
      cases (parts_object ms).symm.trans hitems
      exact forall_mem_map.mpr fun m _ => .str m.1

end RegexCorpus
