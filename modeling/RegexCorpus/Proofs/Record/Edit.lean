import RegexCorpus.Proofs.Json.Line

/-!
# Records on lines

The fields of a record are read back from the line of its object, each up to the order of keys.
-/

namespace RegexCorpus
open List
namespace Value

/-! ### Members of an object that was read back -/

theorem find?_entriesOf {ms : Members} (hkeys : (ms.map Prod.fst).Nodup) {k : String}
    {v : Value} (hv : (k, v) ∈ ms) : Entries.find? (entriesOf ms) (.str k) = some v := by
  induction ms with
  | nil => simp at hv
  | cons m ms ih =>
    rw [map_cons, nodup_cons] at hkeys
    rw [entriesOf_cons, Entries.find?_cons_str]
    obtain rfl | hv := mem_cons.mp hv
    · rw [if_pos rfl]
    · have hne : Atom.str m.1 ≠ .str k := by
        intro he
        rw [Atom.str.inj he] at hkeys
        exact hkeys.1 (mem_map_of_mem hv)
      rw [if_neg hne, ih hkeys.2 hv]

section
variable {ms ns : Members} {k : String} {v : Value}

/-- What is found under a key of the object on a line is what stood under it. -/
theorem get_of_isLineOf {line : String} {room : ℕ} (h : Json.IsLineOf ms line ns room)
    (hv : (k, v) ∈ ms) : ∃ w, (Value.object ns).get k = .ok w ∧ Reordered v w := by
  obtain ⟨hkeys, hmembers⟩ := reordered_object.mp h.reordered
  obtain ⟨hnodup, -⟩ := ofAtoms_object.mp h.isJson
  obtain ⟨⟨l, w⟩, hw, hl⟩ := mem_map.mp (hkeys.mem_iff.mp (mem_map_of_mem hv))
  obtain rfl : l = k := hl
  exact ⟨w, get_eq_ok.mpr ⟨_, rfl, find?_entriesOf hnodup hw⟩, hmembers l v w hv hw⟩

theorem has_of_get {obj w : Value} (h : obj.get k = .ok w) : obj.has (.str k) = .ok true := by
  obtain ⟨es, rfl, hw⟩ := get_eq_ok.mp h
  rw [has, toKey]
  change Except.ok (Entries.has es (.str k)) = _
  rw [Entries.has_eq_isSome, hw]
  rfl

theorem eq_of_reordered_atom {a : Atom} (h : Reordered (.atom a) v) : v = .atom a := by
  cases h
  rfl

theorem exists_list_of_reordered {xs : List Value} (h : Reordered (.list xs) v) :
    ∃ ys, v = .list ys ∧ List.Forall₂ Reordered xs ys := by
  cases h with
  | @list _ ys hlength h =>
    refine ⟨ys, rfl, forall₂_iff_get.mpr ⟨hlength, fun i hi hi' => ?_⟩⟩
    exact h i _ _ (getElem?_eq_getElem hi) (getElem?_eq_getElem hi')

theorem eq_of_reordered_atoms {as : List Atom} (h : Reordered (.list (as.map .atom)) v) :
    v = .list (as.map .atom) := by
  obtain ⟨ys, rfl, hys⟩ := exists_list_of_reordered h
  have heq : List.Forall₂ (· = ·) (as.map .atom) ys := by
    refine forall₂_map_left_iff.mpr ((forall₂_map_left_iff.mp hys).imp fun a y hy => ?_)
    exact (eq_of_reordered_atom hy).symm
  rw [forall₂_eq_eq_eq] at heq
  rw [heq]

end
end Value

/-! ### Fields set from an object -/

section
variable {σ : Type} {obj v : Value} {key : String} {set : Value → σ → σ} {s : σ}

theorem Edit.made_eq_ok {e : Edit σ Unit} {s' : σ} :
    e.made s = .ok s' ↔ e.run s = (.ok (), s') := by
  rw [Edit.made]
  rcases e.run s with ⟨_ | ⟨⟩, t⟩ <;> constructor <;> rintro ⟨⟩ <;> rfl

theorem ofLine_str (line : String) (room : ℕ) :
    Json.ofLine (.str line) room = Json.ofText line room := by
  rw [Json.ofLine, Value.text, Outcome.ok_bind]

section
variable {α : Type} (f : Unit → Edit σ α)

theorem setFields_nil_bind : (setFields obj [] >>= f).run s = (f ()).run s := rfl

theorem setFields_cons_bind (h : obj.get key = .ok v) (rest : List (String × (Value → σ → σ))) :
    (setFields obj ((key, set) :: rest) >>= f).run s =
      (setFields obj rest >>= f).run (set v s) := by
  rw [setFields, map_cons, h]
  rfl

theorem setOptional_bind (h : obj.get key = .ok v) (default : Value) :
    (setOptional obj key default set >>= f).run s = (f ()).run (set v s) := by
  rw [setOptional, Value.getOr, Value.has_of_get h, Outcome.ok_bind, if_pos rfl, h]
  rfl

end

theorem setFields_cons_run (h : obj.get key = .ok v) (rest : List (String × (Value → σ → σ))) :
    (setFields obj ((key, set) :: rest)).run s = (setFields obj rest).run (set v s) := by
  rw [setFields, map_cons, h]
  rfl

theorem setFields_cons_eq_ok {rest : List (String × (Value → σ → σ))} {s' : σ} :
    (setFields obj ((key, set) :: rest)).run s = (.ok (), s') ↔
      ∃ v, obj.get key = .ok v ∧ (setFields obj rest).run (set v s) = (.ok (), s') := by
  constructor
  · intro h
    rw [setFields, map_cons, fillIn] at h
    obtain ⟨v, hv, h⟩ := run_lift_bind_eq_ok.mp h
    exact ⟨v, hv, h⟩
  · rintro ⟨v, hv, h⟩
    rwa [setFields_cons_run hv]

end
end RegexCorpus
