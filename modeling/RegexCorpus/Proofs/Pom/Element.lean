import RegexCorpus.Pom.Element
import Mathlib.Data.List.Basic

/-!
# Elements and their places

An element consists of its texts, one at each place, and of all the rest, which is what is left when
the texts are taken out. Setting a text changes the text at one place and nothing else; which places
a way of names leads to does not depend on any text.
-/

namespace RegexCorpus.Pom.Element
open List

variable {e e' : Element} {place : List Nat}

theorem children_induction {P : Element → Prop}
    (h : ∀ e : Element, (∀ child ∈ e.children, P child) → P e) : ∀ e, P e
  | mk tag text tail attributes children =>
    h (mk tag text tail attributes children) fun child _ => children_induction h child
decreasing_by
  have := sizeOf_lt_of_mem ‹child ∈ _›
  simp only [Element.children, Element.mk.sizeOf_spec] at this ⊢
  omega

mutual

/-- The element without any text in it; what stands after elements stays. -/
def bare : Element → Element
  | mk tag _ tail attributes children => mk tag none tail attributes (bareAll children)

/-- The elements of a list without their texts. -/
def bareAll : List Element → List Element
  | [] => []
  | e :: es => bare e :: bareAll es

end

theorem bareAll_eq_map (es : List Element) : bareAll es = es.map bare := by
  induction es with
  | nil => rfl
  | cons e es ih => rw [bareAll, ih, map_cons]

theorem bare_mk (tag : String) (text tail : Option String) (attributes : List (String × String))
    (children : List Element) :
    (mk tag text tail attributes children).bare =
      mk tag none tail attributes (children.map bare) := by
  rw [bare, bareAll_eq_map]

@[simp] theorem tag_bare (e : Element) : e.bare.tag = e.tag := by
  cases e
  rfl

@[simp] theorem children_bare (e : Element) : e.bare.children = e.children.map bare := by
  cases e
  rw [bare_mk]
  rfl

/-! ### Places -/

theorem at?_cons (e : Element) (i : Nat) (place : List Nat) :
    e.at? (i :: place) = e.children[i]?.bind (·.at? place) := by
  rw [at?]
  cases e.children[i]? <;> rfl

theorem at?_append (e : Element) (place place' : List Nat) :
    e.at? (place ++ place') = (e.at? place).bind (·.at? place') := by
  induction place generalizing e with
  | nil => rfl
  | cons i place ih =>
    rw [cons_append, at?_cons, at?_cons]
    rcases e.children[i]? with _ | child
    · rfl
    · exact ih child

theorem at?_bare (e : Element) (place : List Nat) : e.bare.at? place = (e.at? place).map bare := by
  induction place generalizing e with
  | nil => rfl
  | cons i place ih =>
    rw [at?_cons, at?_cons, children_bare, getElem?_map]
    rcases e.children[i]? with _ | child
    · rfl
    · exact ih child

def textAt (e : Element) (place : List Nat) : Option String := (e.at? place).bind text

theorem textAt_cons (e : Element) (i : Nat) (place : List Nat) :
    e.textAt (i :: place) = e.children[i]?.bind (·.textAt place) := by
  rw [textAt, at?_cons, Option.bind_assoc]
  rfl

theorem textAt_append (e : Element) (place place' : List Nat) :
    e.textAt (place ++ place') = (e.at? place).bind (·.textAt place') := by
  rw [textAt, at?_append, Option.bind_assoc]
  rfl

/-- Elements that have the same texts, and agree in all the rest, are the same. -/
theorem eq_of_bare (hbare : e.bare = e'.bare) (htext : ∀ place, e.textAt place = e'.textAt place) :
    e = e' := by
  induction e using children_induction generalizing e' with
  | h e ih =>
    obtain ⟨tag, text, tail, attributes, children⟩ := e
    obtain ⟨tag', text', tail', attributes', children'⟩ := e'
    obtain rfl : text = text' := htext []
    rw [bare_mk, bare_mk] at hbare
    obtain ⟨rfl, -, rfl, rfl, hchildren⟩ := Element.mk.inj hbare
    congr 1
    refine ext_getElem? fun i => ?_
    have hbares : children[i]?.map bare = children'[i]?.map bare := by
      rw [← getElem?_map, hchildren, getElem?_map]
    have htexts (place : List Nat) : children[i]?.bind (·.textAt place) =
        children'[i]?.bind (·.textAt place) := by
      have h := htext (i :: place)
      rwa [textAt_cons, textAt_cons] at h
    cases hi : children[i]? with
    | none =>
      rw [hi, Option.map_none, eq_comm, Option.map_eq_none_iff] at hbares
      exact hbares.symm
    | some child =>
      rw [hi, Option.map_some, eq_comm, Option.map_eq_some_iff] at hbares
      obtain ⟨child', hi', hbare'⟩ := hbares
      simp only [hi, hi', Option.bind_some] at htexts
      rw [hi', ih child (mem_of_getElem? hi) hbare'.symm htexts]

/-! ### Setting a text -/

theorem bare_setText (t : String) (e : Element) (place : List Nat) :
    (e.setText t place).bare = e.bare := by
  induction place generalizing e with
  | nil =>
    cases e
    rfl
  | cons i place ih =>
    obtain ⟨tag, text, tail, attributes, children⟩ := e
    rw [setText, bare_mk, bare_mk]
    congr 1
    refine ext_getElem? fun j => ?_
    rw [getElem?_map, getElem?_map, getElem?_modify]
    by_cases hij : i = j
    · cases children[j]? <;> simp [hij, ih]
    · cases children[j]? <;> simp [hij]

theorem children_setText_cons (t : String) (e : Element) (i : Nat) (place : List Nat) :
    (e.setText t (i :: place)).children = e.children.modify i (·.setText t place) := by
  cases e
  rfl

theorem textAt_setText (t : String) (h : (e.at? place).isSome = true) (place' : List Nat) :
    (e.setText t place).textAt place' = if place' = place then some t else e.textAt place' := by
  induction place generalizing e place' with
  | nil =>
    cases place' with
    | nil | cons j place' =>
      cases e
      rfl
  | cons i place ih =>
    cases place' with
    | nil =>
      cases e
      rfl
    | cons j place' =>
      rw [at?_cons] at h
      rw [textAt_cons, textAt_cons, children_setText_cons, getElem?_modify]
      by_cases hij : j = i
      · subst hij
        cases hj : e.children[j]? with
        | none => simp [hj] at h
        | some child =>
          rw [hj] at h
          simpa using ih h place'
      · cases e.children[j]? <;> simp [hij, Ne.symm hij]

/-! ### Searching -/

theorem mem_places_cons {space name : String} {way : List String} :
    place ∈ e.places space (name :: way) ↔
      ∃ i child place', e.children[i]? = some child ∧ meets space name child.tag = true ∧
        place' ∈ child.places space way ∧ place = i :: place' := by
  simp only [places, mem_flatMap, mem_filter, mem_map, Prod.exists, mem_zipIdx_iff_getElem?]
  constructor
  · rintro ⟨child, i, ⟨hi, htag⟩, place', hplace', rfl⟩
    exact ⟨i, child, place', hi, htag, hplace', rfl⟩
  · rintro ⟨i, child, place', hi, htag, hplace', rfl⟩
    exact ⟨child, i, ⟨hi, htag⟩, place', hplace', rfl⟩

theorem length_of_mem_places {space : String} {way : List String} (h : place ∈ e.places space way) : place.length = way.length := by
  induction way generalizing e place with
  | nil =>
    rw [mem_singleton.mp h]
    rfl
  | cons name way ih =>
    obtain ⟨i, child, place', -, -, hplace', rfl⟩ := mem_places_cons.mp h
    rw [length_cons, length_cons, ih hplace']

theorem places_bare (space : String) (way : List String) (e : Element) :
    e.bare.places space way = e.places space way := by
  induction way generalizing e with
  | nil => rfl
  | cons name way ih =>
    simp only [places, children_bare, zipIdx_map, filter_map, flatMap_map,
      Function.comp_def, Prod.map_fst, Prod.map_snd, id, tag_bare, ih]

theorem places_eq_of_bare (h : e.bare = e'.bare) (space : String) (way : List String) :
    e.places space way = e'.places space way := by
  rw [← places_bare, h, places_bare]

def marks (e : Element) : List (String × Option String) := e.children.map fun c => (c.tag, c.text)

theorem marks_eq_of_bare (hbare : e.bare = e'.bare) (htext : ∀ i, e.textAt [i] = e'.textAt [i]) :
    e.marks = e'.marks := by
  refine ext_getElem? fun i => ?_
  have hchild : e.children[i]?.map bare = e'.children[i]?.map bare := by
    rw [← getElem?_map, ← getElem?_map, ← children_bare, ← children_bare, hbare]
  have hi := htext i
  rw [textAt_cons, textAt_cons] at hi
  rw [marks, marks, getElem?_map, getElem?_map]
  cases hc : e.children[i]? with
  | none =>
    rw [hc, Option.map_none, eq_comm, Option.map_eq_none_iff] at hchild
    rw [hchild, Option.map_none]
  | some c =>
    rw [hc, Option.map_some, eq_comm, Option.map_eq_some_iff] at hchild
    obtain ⟨c', hc', hbare'⟩ := hchild
    rw [hc, hc'] at hi
    have htag : c.tag = c'.tag := by rw [← tag_bare, ← hbare', tag_bare]
    have htext' : c.text = c'.text := hi
    rw [hc', Option.map_some, Option.map_some, htag, htext']

end RegexCorpus.Pom.Element
