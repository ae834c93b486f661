import RegexCorpus.Proofs.Run

/-!
# Dictionaries

Look-ups under a text: what reading, setting and taking out an entry does to the others.
-/

namespace RegexCorpus

theorem Atom.samePart_str (a : Atom) (s : String) : a.samePart (.str s) = decide (a = .str s) := by
  cases a <;> simp [samePart, same, toNumber?, beq_eq_decide]

namespace Entries

variable {es : Entries} {k l : String} {v : Value}

theorem find?_cons_str (a : Atom) :
    find? ((a, v) :: es) (.str k) = if a = .str k then some v else find? es (.str k) := by
  simp only [find?, List.find?_cons, Atom.samePart_str]
  by_cases h : a = .str k <;> simp [h]

theorem has_eq_isSome (k : Atom) : has es k = (find? es k).isSome := by
  rw [has, find?, Option.isSome_map, List.isSome_find?]

theorem set_cons_str (a : Atom) (w : Value) :
    set (.str k) v ((a, w) :: es) =
      if a = .str k then (a, v) :: es else (a, w) :: set (.str k) v es := by
  simp [set, Atom.samePart_str]

theorem find?_set_self : find? (set (.str k) v es) (.str k) = some v := by
  induction es with
  | nil => simp [set, find?_cons_str]
  | cons e es ih =>
    obtain ⟨a, w⟩ := e
    rw [set_cons_str]
    split_ifs with h
    · rw [find?_cons_str, if_pos h]
    · rw [find?_cons_str, if_neg h, ih]

theorem find?_set_of_ne (h : l ≠ k) : find? (set (.str k) v es) (.str l) = find? es (.str l) := by
  induction es with
  | nil => simp [set, find?_cons_str, h.symm]
  | cons e es ih =>
    obtain ⟨a, w⟩ := e
    rw [set_cons_str]
    split_ifs with hk
    · have hl : a ≠ .str l := by simpa [hk] using h.symm
      rw [find?_cons_str, find?_cons_str, if_neg hl, if_neg hl]
    · rw [find?_cons_str, find?_cons_str, ih]

end Entries

namespace Value

theorem same_str {v : Value} {s : String} : v.same (.str s) = true ↔ v = .str s := by
  cases v with
  | atom a => cases a <;> simp [same, Atom.same, Atom.toNumber?]
  | list | dict => simp [same, samePart]

theorem get_eq_ok {v w : Value} {k : String} :
    v.get k = .ok w ↔ ∃ es, v = .dict es ∧ Entries.find? es (.str k) = some w := by
  cases v with
  | atom a =>
    cases a <;> simp [get, item, toIndex, bind, Except.bind]
  | list xs => simp [get, item, toIndex, bind, Except.bind]
  | dict es =>
    simp only [get, item, toKey, bind, Except.bind, dict.injEq, exists_eq_left']
    cases Entries.find? es (.str k) <;> simp

theorem text_eq_ok {v : Value} {s : String} : v.text = .ok s ↔ v = .str s := by
  cases v with
  | atom a => cases a <;> simp [text]
  | list | dict => simp [text]

end Value
end RegexCorpus
