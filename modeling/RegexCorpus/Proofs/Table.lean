import RegexCorpus.Proofs.Key
import Mathlib.Data.List.Induction
import Mathlib.Data.List.Nodup
import Mathlib.Data.List.Perm.Basic
import Mathlib.Logic.Function.Basic

/-!
# Tables in order of first occurrence

A table takes entries one after the other. A new key goes to the end; a key that is there keeps its
place and gets the new value. So the keys stand in the order of their first occurrence, and each has
its last value.
-/

namespace RegexCorpus
open List

/-! ### Items in the order of their first occurrence -/

section
variable {α : Type} [DecidableEq α]

/-- An item put at the end of a list, unless it is there. -/
def noted (xs : List α) (x : α) : List α := if x ∈ xs then xs else xs ++ [x]

theorem eraseDups_concat (xs : List α) (x : α) : (xs ++ [x]).eraseDups = noted xs.eraseDups x := by
  rw [eraseDups_append, noted]
  by_cases h : x ∈ xs
  · have hnone : [x].removeAll xs = [] := by simp [List.removeAll, h]
    rw [hnone, if_pos (mem_eraseDups.2 h), eraseDups_nil, append_nil]
  · have hone : [x].removeAll xs = [x] := by simp [List.removeAll, h]
    rw [hone, if_neg (mt mem_eraseDups.1 h)]
    rfl

theorem nodup_noted {xs : List α} (h : xs.Nodup) (x : α) : (noted xs x).Nodup := by
  unfold noted
  split_ifs with hx
  · exact h
  · rw [← concat_eq_append]
    exact h.concat hx

theorem nodup_eraseDups (xs : List α) : xs.eraseDups.Nodup := by
  induction xs using List.reverseRecOn with
  | nil => exact nodup_nil
  | append_singleton xs x ih =>
    rw [eraseDups_concat]
    exact nodup_noted ih x

theorem eraseDups_perm {xs ys : List α} (h : xs.Perm ys) : xs.eraseDups.Perm ys.eraseDups := by
  rw [perm_ext_iff_of_nodup (nodup_eraseDups xs) (nodup_eraseDups ys)]
  intro a
  rw [mem_eraseDups, mem_eraseDups, h.mem_iff]

end

/-! ### The last item of each key -/

section
variable {α κ : Type} [DecidableEq κ] (key : α → κ)

def lastBy? (xs : List α) (k : κ) : Option α := xs.reverse.find? (key · = k)

/-- For each key, in the order of first occurrence, the last item that has it. -/
def lastsBy (xs : List α) : List α := (xs.map key).eraseDups.filterMap (lastBy? key xs)

variable {key} {xs : List α} {x : α} {k : κ}

theorem lastBy?_concat (xs : List α) (x : α) (k : κ) :
    lastBy? key (xs ++ [x]) k = if key x = k then some x else lastBy? key xs k := by
  simp only [lastBy?, reverse_append, reverse_singleton, singleton_append, List.find?_cons]
  by_cases hk : key x = k <;> simp [hk]

theorem key_of_lastBy? (h : lastBy? key xs k = some x) : key x = k := by
  simpa using find?_some h

theorem exists_lastBy? (hk : k ∈ xs.map key) : ∃ x, lastBy? key xs k = some x := by
  obtain ⟨x, hx, rfl⟩ := mem_map.mp hk
  rw [← Option.isSome_iff_exists, lastBy?, find?_isSome]
  exact ⟨x, mem_reverse.mpr hx, by simp⟩

theorem split_of_lastBy? (h : lastBy? key xs k = some x) :
    ∃ before after, xs = before ++ x :: after ∧ ∀ y ∈ after, key y ≠ key x := by
  have hkey := key_of_lastBy? h
  obtain ⟨-, as, bs, hxs, has⟩ := find?_eq_some_iff_append.mp h
  refine ⟨bs.reverse, as.reverse, ?_, ?_⟩
  · rw [← reverse_reverse xs, hxs]
    simp
  · intro y hy
    rw [hkey]
    simpa using has y (mem_reverse.mp hy)

theorem map_key_lastsBy (key : α → κ) (xs : List α) :
    (lastsBy key xs).map key = (xs.map key).eraseDups := by
  have hlast : ∀ k ∈ (xs.map key).eraseDups, (lastBy? key xs k).map key = some k := by
    intro k hk
    obtain ⟨x, hx⟩ := exists_lastBy? (mem_eraseDups.mp hk)
    rw [hx, Option.map_some, key_of_lastBy? hx]
  rw [lastsBy, map_filterMap, filterMap_congr hlast, filterMap_some]

theorem exists_lastBy?_of_mem (hx : x ∈ lastsBy key xs) : ∃ k, lastBy? key xs k = some x := by
  obtain ⟨k, -, hk⟩ := mem_filterMap.mp hx
  exact ⟨k, hk⟩

end

/-! ### Tables of texts -/

section
variable {β : Type}

def tabulate (keys : List String) (f : String → β) : List (Atom × β) :=
  keys.map fun k => (.str k, f k)

variable {keys : List String} {f : String → β} {k : String}

theorem tabulate_cons (k : String) (keys : List String) (f : String → β) :
    tabulate (k :: keys) f = (.str k, f k) :: tabulate keys f := rfl

theorem tabulate_update (hk : k ∉ keys) (v : β) :
    tabulate keys (Function.update f k v) = tabulate keys f := by
  refine map_congr_left fun l hl => ?_
  have hne : l ≠ k := fun hl' => hk (hl' ▸ hl)
  rw [Function.update_of_ne hne]

/-- A text that is set in a table is noted among its keys and gets the value. -/
theorem upsert_tabulate (hnodup : keys.Nodup) (f : String → β) (k : String) (v : β) :
    upsert (.str k) v (tabulate keys f) = tabulate (noted keys k) (Function.update f k v) := by
  induction keys with
  | nil => simp [noted, tabulate, upsert]
  | cons l keys ih =>
    rw [nodup_cons] at hnodup
    rw [tabulate_cons, upsert, Atom.samePart_str]
    by_cases hl : l = k
    · subst hl
      rw [if_pos (by simp), noted, if_pos mem_cons_self, tabulate_cons,
        Function.update_self, tabulate_update hnodup.1]
    · have hnoted : noted (l :: keys) k = l :: noted keys k := by
        by_cases hk : k ∈ keys <;> simp [noted, hk, Ne.symm hl]
      rw [if_neg (by simpa using hl), ih hnodup.2, hnoted, tabulate_cons, Function.update_of_ne hl]

theorem mem_upsert {k : Atom} {v : β} {es : List (Atom × β)} {e : Atom × β}
    (h : e ∈ upsert k v es) : e ∈ es ∨ e.2 = v ∧ (e.1 = k ∨ ∃ w, (e.1, w) ∈ es) := by
  induction es with
  | nil =>
    obtain rfl := mem_singleton.mp h
    exact .inr ⟨rfl, .inl rfl⟩
  | cons d es ih =>
    rw [upsert] at h
    split_ifs at h
    · rcases mem_cons.mp h with rfl | h
      · exact .inr ⟨rfl, .inr ⟨d.2, mem_cons_self⟩⟩
      · exact .inl (mem_cons_of_mem d h)
    · rcases mem_cons.mp h with rfl | h
      · exact .inl mem_cons_self
      · rcases ih h with h | ⟨hv, rfl | ⟨w, hw⟩⟩
        · exact .inl (mem_cons_of_mem d h)
        · exact .inr ⟨hv, .inl rfl⟩
        · exact .inr ⟨hv, .inr ⟨w, mem_cons_of_mem d hw⟩⟩

end

/-! ### Dictionaries built from pairs -/

namespace Entries

theorem ofPairs_concat (ps : List (Atom × Value)) (p : Atom × Value) :
    ofPairs (ps ++ [p]) = set p.1 p.2 (ofPairs ps) := by
  rw [ofPairs, foldl_append]
  rfl

/-- The dictionary of items with a text and a value each: the texts in the order of their first
occurrence, with the values of the last items. -/
theorem ofPairs_map {α : Type} (key : α → String) (value : α → Value) (xs : List α) :
    ofPairs (xs.map fun x => (.str (key x), value x)) =
      (lastsBy key xs).map fun x => (.str (key x), value x) := by
  -- first as a table of the values, which is easier to follow along the items
  have htable : ofPairs (xs.map fun x => (.str (key x), value x)) =
      tabulate (xs.map key).eraseDups fun k => ((lastBy? key xs k).map value).getD .null := by
    induction xs using List.reverseRecOn with
    | nil => rfl
    | append_singleton xs x ih =>
      have hvalues : (fun k => ((lastBy? key (xs ++ [x]) k).map value).getD .null) =
          Function.update (fun k => ((lastBy? key xs k).map value).getD .null) (key x)
            (value x) := by
        funext k
        rw [lastBy?_concat]
        by_cases hk : k = key x
        · rw [if_pos hk.symm, hk, Function.update_self]
          rfl
        · rw [if_neg (Ne.symm hk), Function.update_of_ne hk]
      rw [map_append, map_append, map_singleton, map_singleton, ofPairs_concat,
        ih, set_eq_upsert, upsert_tabulate (nodup_eraseDups _), eraseDups_concat, hvalues]
  have hlast : ∀ k ∈ (xs.map key).eraseDups,
      (lastBy? key xs k).map (fun x => ((.str (key x), value x) : Atom × Value)) =
        some (.str k, ((lastBy? key xs k).map value).getD .null) := by
    intro k hk
    obtain ⟨x, hx⟩ := exists_lastBy? (mem_eraseDups.mp hk)
    rw [hx, Option.map_some, key_of_lastBy? hx]
    rfl
  rw [htable, lastsBy, map_filterMap, filterMap_congr hlast]
  exact (congrFun filterMap_eq_map' _).symm

theorem find?_ofPairs (ps : List (Atom × Value)) (k : Atom) :
    find? (ofPairs ps) k = (ps.reverse.find? (·.1.samePart k)).map (·.2) := by
  induction ps using List.reverseRecOn with
  | nil => rfl
  | append_singleton ps p ih =>
    rw [ofPairs_concat, find?_set, ih, reverse_append, reverse_singleton,
      singleton_append, List.find?_cons]
    cases p.1.samePart k <;> rfl

end Entries
end RegexCorpus
