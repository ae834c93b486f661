import RegexCorpus.Proofs.Pom.Search
import Mathlib.Data.List.TakeWhile

/-!
# Bringing a description to a release

A description is written when it has a namespace and every element found by a search has a text
that can be read. What is written is the description with these elements raised and the namespace
taken off its tags. Nothing is added to it: the versions of three properties are compared with a list
of two, so that declaring a release is never found necessary.

Writing goes down into the elements, and stops where they nest too deep. The file then holds the
beginning of the description, since it was emptied before.
-/

namespace RegexCorpus.Pom
open List
namespace Element

variable {space tag : String} {e : Element}

/-! ### Namespaces -/

/-- A name, or what a namespace is named by: there are no braces in it, and no line ends. -/
abbrev Plain (cs : List Char) : Prop := ∀ c ∈ cs, c ≠ '\x7b' ∧ c ≠ '\x7d' ∧ c ≠ '\n'

/-- The tag is a name, or a name in a namespace. -/
def WellFormedTag (tag : String) : Prop :=
  Plain tag.toList ∨
    ∃ uri name, Plain uri ∧ Plain name ∧ tag.toList = '\x7b' :: (uri ++ '\x7d' :: name)

/-- All tags are names, in a namespace or in none. -/
def WellFormed (e : Element) : Prop := ∀ place x, e.at? place = some x → WellFormedTag x.tag

theorem wellFormed_mk {text tail : Option String} {attributes : List (String × String)}
    {children : List Element} : (mk tag text tail attributes children).WellFormed ↔
      WellFormedTag tag ∧ ∀ child ∈ children, child.WellFormed := by
  constructor
  · intro h
    refine ⟨h [] _ rfl, fun child hchild place x hx => ?_⟩
    obtain ⟨i, hi⟩ := getElem?_of_mem hchild
    refine h (i :: place) x ?_
    rw [at?_cons, Element.children, hi]
    exact hx
  · rintro ⟨htag, hchildren⟩ place x hx
    cases place with
    | nil =>
      obtain rfl := Option.some_inj.mp hx
      exact htag
    | cons i place =>
      rw [at?_cons] at hx
      obtain ⟨child, hi, hx⟩ := Option.bind_eq_some_iff.mp hx
      exact hchildren child (mem_of_getElem? hi) place x hx

theorem afterBrace?_append {uri : List Char} (h : '\x7d' ∉ uri) (name : List Char) :
    afterBrace? (uri ++ '\x7d' :: name) = some name := by
  induction uri with
  | nil => rfl
  | cons c uri ih =>
    obtain ⟨hc, huri⟩ := not_or.mp (mem_cons.not.mp h)
    rw [cons_append, afterBrace?, if_neg (by simpa using Ne.symm hc), ih huri]

theorem afterBrace?_eq_none {cs : List Char} : afterBrace? cs = none ↔ '\x7d' ∉ cs := by
  induction cs with
  | nil => simp [afterBrace?]
  | cons c cs ih =>
    rw [afterBrace?]
    by_cases hc : c = '\x7d' <;> simp [hc, ih, Ne.symm]

theorem throughLastBrace_plain {name : List Char} (h : Plain name) : throughLastBrace name = none := by
  induction name with
  | nil => rfl
  | cons c name ih =>
    obtain ⟨-, hbrace, hline⟩ := h c mem_cons_self
    rw [throughLastBrace, if_neg (by simpa using hline), ih fun d hd => h d (mem_cons_of_mem _ hd)]
    simp [hbrace]

theorem throughLastBrace_append {uri name : List Char} (huri : Plain uri) (hname : Plain name) :
    throughLastBrace (uri ++ '\x7d' :: name) = some (uri ++ ['\x7d']) := by
  induction uri with
  | nil =>
    rw [nil_append, throughLastBrace, throughLastBrace_plain hname]
    rfl
  | cons c uri ih =>
    have hline := (huri c mem_cons_self).2.2
    rw [cons_append, throughLastBrace, if_neg (by simpa using hline),
      ih fun d hd => huri d (mem_cons_of_mem _ hd)]
    rfl

theorem namespaceOf_cases (h : WellFormedTag tag) :
    (namespaceOf tag = "" ∧ '\x7d' ∉ tag.toList) ∨
      ∃ uri, (namespaceOf tag).toList = '\x7b' :: (uri ++ ['\x7d']) := by
  rcases h with h | ⟨uri, name, huri, hname, htag⟩
  · refine .inl ⟨?_, fun hmem => (h _ hmem).2.1 rfl⟩
    unfold namespaceOf
    split
    · next cs hcs => exact absurd rfl (h '\x7b' (hcs ▸ mem_cons_self)).1
    · rfl
  · refine .inr ⟨uri, ?_⟩
    simp only [namespaceOf, htag, throughLastBrace_append huri hname, String.toList_ofList]

/-- The tag without its namespace, if it starts with the given one. -/
def localTag (space tag : String) : String :=
  if space.toList.isPrefixOf tag.toList then
    String.ofList ((afterBrace? tag.toList).getD tag.toList)
  else tag

/-- A tag that has lost its namespace does not start with one again. -/
theorem not_prefix_localTag {uri : List Char} (hspace : space.toList = '\x7b' :: (uri ++ ['\x7d']))
    (h : WellFormedTag tag) : ¬space.toList <+: (localTag space tag).toList := by
  unfold localTag
  split_ifs with hstart
  · rw [ isPrefixOf_iff_prefix, hspace] at hstart
    rcases h with h | ⟨uri', name, huri, hname, htag⟩
    · exact absurd rfl (h '\x7b' (hstart.subset mem_cons_self)).1
    · have hown : afterBrace? tag.toList = some name := by
        rw [htag, ← cons_append]
        refine afterBrace?_append (fun hmem => ?_) name
        rcases mem_cons.mp hmem with h | h
        · cases h
        · exact (huri _ h).2.1 rfl
      rw [hown, Option.getD_some, String.toList_ofList, hspace]
      exact fun hpre => (hname _ (hpre.subset mem_cons_self)).1 rfl
  · rwa [← isPrefixOf_iff_prefix]

theorem unqualifyAll_eq {es : List Element} (h : ∀ e ∈ es, (e.unqualify space).2 = true) :
    unqualifyAll space es = (es.map fun e => (e.unqualify space).1, true) := by
  induction es with
  | nil => rfl
  | cons e es ih =>
    have he := h e mem_cons_self
    have hes := ih fun e' he' => h e' (mem_cons_of_mem _ he')
    rcases hr : e.unqualify space with ⟨e', done⟩
    obtain rfl : done = true := by rwa [hr] at he
    rw [unqualifyAll, hr, hes, map_cons, hr]

theorem unqualify_eq (hspace : '\x7d' ∈ space.toList) (e : Element) :
    e.unqualify space = (mk (localTag space e.tag) e.text e.tail e.attributes
      (e.children.map fun child => (child.unqualify space).1), true) := by
  induction e using children_induction with
  | h e ih =>
    obtain ⟨tag, text, tail, attributes, children⟩ := e
    have hall := unqualifyAll_eq fun e he => congrArg Prod.snd (ih e he)
    simp only [Element.children, Element.tag, Element.text, Element.tail, Element.attributes] at hall ⊢
    rw [unqualify, hall, localTag]
    split_ifs with hstart
    · have hbrace := ( isPrefixOf_iff_prefix.mp hstart).subset hspace
      cases hown : afterBrace? tag.toList with
      | none => exact absurd hbrace (afterBrace?_eq_none.mp hown)
      | some own => rfl
    · rfl

theorem unqualify_empty (h : '\x7d' ∉ e.tag.toList) : (e.unqualify "").2 = false := by
  obtain ⟨tag, text, tail, attributes, children⟩ := e
  have hnone : afterBrace? tag.toList = none := afterBrace?_eq_none.mpr h
  simp [unqualify, hnone]

/-- What an element says of itself, its children aside. -/
def label (e : Element) : String × Option String × Option String × List (String × String) :=
  (e.tag, e.text, e.tail, e.attributes)

theorem at?_unqualify (hspace : '\x7d' ∈ space.toList) (e : Element) (place : List Nat) :
    ((e.unqualify space).1.at? place).map label =
      (e.at? place).map fun x => (localTag space x.tag, x.label.2) := by
  induction place generalizing e with
  | nil =>
    rw [unqualify_eq hspace]
    rfl
  | cons i place ih =>
    rw [unqualify_eq hspace, at?_cons, at?_cons, children, getElem?_map]
    cases e.children[i]? with
    | none => rfl
    | some child => exact ih child

theorem textAt_unqualify (hspace : '\x7d' ∈ space.toList) (e : Element) (place : List Nat) :
    (e.unqualify space).1.textAt place = e.textAt place := by
  have h := congrArg (·.bind (·.2.1)) (at?_unqualify hspace e place)
  rw [Option.bind_map, Option.bind_map] at h
  exact h

theorem WellFormed.of_bare {e' : Element} (h : e.WellFormed) (hbare : e'.bare = e.bare) :
    e'.WellFormed := by
  intro place x hx
  have hat : (e'.at? place).map bare = (e.at? place).map bare := by
    rw [← at?_bare, hbare, at?_bare]
  rw [hx, Option.map_some, eq_comm, Option.map_eq_some_iff] at hat
  obtain ⟨y, hy, hsame⟩ := hat
  rw [← tag_bare, ← hsame, tag_bare]
  exact h place y hy

theorem isSome_of_mem_places {way : List String} {place : List Nat} (h : place ∈ e.places space way) :
    (e.at? place).isSome = true := by
  induction way generalizing e place with
  | nil =>
    rw [mem_singleton.mp h]
    rfl
  | cons name way ih =>
    obtain ⟨i, child, place', hi, -, hplace', rfl⟩ := mem_places_cons.mp h
    rw [at?_cons, hi]
    exact ih hplace'

/-! ### Written elements -/

/-- The pieces of a description that is written to its end. -/
def pieces (e : Element) : List Piece := (e.writes 1).map Prod.snd

theorem written_eq_take (room : ℕ) (e : Element) :
    e.written room = e.pieces.take ((e.writes 1).takeWhile fun w => w.1 ≤ room).length := by
  unfold written pieces
  rw [← map_take, ← prefix_iff_eq_take.mp ( takeWhile_prefix _)]

theorem written_eq_pieces_iff {room : ℕ} :
    e.written room = e.pieces ↔ ∀ w ∈ e.writes 1, w.1 ≤ room := by
  constructor
  · intro h
    have hlength := congrArg List.length h
    unfold written pieces at hlength
    rw [length_map, length_map] at hlength
    have hall : ((e.writes 1).takeWhile fun w => w.1 ≤ room) = e.writes 1 :=
      ( takeWhile_prefix _).eq_of_length hlength
    simpa using takeWhile_eq_self_iff.mp hall
  · intro h
    unfold written pieces
    rw [takeWhile_eq_self_iff.mpr (by simpa using h)]

/-- An element is written by a call inside those for the elements that it is in. -/
theorem start_mem_writes {place : List ℕ} {x : Element} (hx : e.at? place = some x) (level : ℕ) :
    (level + place.length + 1, Piece.start x.tag) ∈ e.writes level := by
  induction place generalizing e level with
  | nil =>
    obtain rfl := Option.some_inj.mp hx
    obtain ⟨tag, text, tail, attributes, children⟩ := e
    simp [writes, Piece.calls, Element.tag]
  | cons i place ih =>
    obtain ⟨tag, text, tail, attributes, children⟩ := e
    rw [at?_cons] at hx
    obtain ⟨child, hi, hchild⟩ := Option.bind_eq_some_iff.mp hx
    have hall {es : List Element} (hmem : child ∈ es) :
        (level + 1 + place.length + 1, Piece.start x.tag) ∈ writesAll (level + 1) es := by
      induction es with
      | nil => cases hmem
      | cons e es ih' =>
        rw [writesAll, mem_append]
        rcases mem_cons.mp hmem with rfl | hmem
        · exact .inl (ih hchild (level + 1))
        · exact .inr (ih' hmem)
    have hlevel : level + (i :: place).length + 1 = level + 1 + place.length + 1 := by
      rw [length_cons]
      omega
    rw [writes, hlevel]
    exact mem_append_left _ (mem_append_right _ (hall (mem_of_getElem? hi)))

end Element

/-! ### Searches that succeed -/

section

variable {least : Int} {root e e' : Element} {found : List (Option (List Nat))} {place : List Nat}

/-- The element at a place has a text that can be read. -/
def Readable (e : Element) (place : List Nat) : Prop :=
  ∃ t, e.textAt place = some t ∧ ¬IsOverlong t

theorem readable_congr (h : e'.textAt place = e.textAt place) :
    Readable e' place ↔ Readable e place := by
  unfold Readable
  rw [h]

theorem fits_iff_readable (hshort : (Atom.int least).Short) :
    (e.textAt place).isSome = true ∧ Fits least e place ↔ Readable e place := by
  constructor
  · rintro ⟨hsome, hfits⟩
    obtain ⟨t, ht⟩ := Option.isSome_iff_exists.mp hsome
    exact ⟨t, ht, hfits.1 t ht⟩
  · rintro ⟨t, ht, hlong⟩
    refine ⟨by rw [ht]; rfl, fun t' ht' => ?_, fun _ => hshort⟩
    rw [ht] at ht'
    cases ht'
    exact hlong

/-- An element is raised only if its text can be read. -/
theorem readable_of_raiseAt {version : Option Int} (hshort : (Atom.int least).Short)
    (hat : (e.at? place).isSome = true) (h : (raiseAt least place).run e = (.ok version, e')) :
    Readable e place := by
  rw [← fits_iff_readable hshort]
  by_cases hsome : (e.textAt place).isSome = true
  · refine ⟨hsome, by_contra fun hfits => ?_⟩
    rw [raiseAt_of_not_fits hsome hfits] at h
    cases h
  · obtain ⟨x, hx⟩ := Option.isSome_iff_exists.mp hat
    rw [Option.not_isSome_iff_eq_none, Element.textAt, hx] at hsome
    have hread : releaseOf x = .error .wrongKind := by
      have hnone : x.text = none := hsome
      rw [releaseOf, hnone]
    rw [raiseAt, run_get_state_bind, hx] at h
    dsimp only at h
    rw [hread] at h
    cases h

/-- Elements are raised one after another only if all their texts can be read. -/
theorem readable_of_raiseAll {versions : List (Option Int)} (hshort : (Atom.int least).Short)
    (hat : ∀ place, some place ∈ found → (e.at? place).isSome = true)
    (h : (found.mapM (raiseSome least)).run e = (.ok versions, e')) :
    ∀ place, some place ∈ found → Readable e place := by
  induction found generalizing e versions e' with
  | nil => simp
  | cons p found ih =>
    rw [mapM_cons] at h
    obtain ⟨version, e₁, hfirst, hrest⟩ := run_bind_eq_ok.mp h
    obtain ⟨versions', e₂, hrun, -⟩ := run_bind_eq_ok.mp hrest
    have hbare : e₁.bare = e.bare := by
      have := bare_raiseSome least p e
      rwa [hfirst] at this
    have hat' (place : List Nat) (hplace : some place ∈ found) : (e₁.at? place).isSome = true := by
      rw [← Option.isSome_map, ← Element.at?_bare, hbare, Element.at?_bare, Option.isSome_map]
      exact hat place (mem_cons_of_mem _ hplace)
    have hfound := ih hat' hrun
    intro place hplace
    cases p with
    | none =>
      obtain rfl : e = e₁ := congrArg Prod.snd hfirst
      exact hfound place ((mem_cons.mp hplace).resolve_left (by simp))
    | some q =>
      have hq := readable_of_raiseAt hshort (hat q mem_cons_self) hfirst
      by_cases hsame : place = q
      · rwa [hsame]
      · obtain ⟨hsome, hfits⟩ := (fits_iff_readable hshort).mpr hq
        obtain ⟨e₃, hrun', hraised⟩ := raiseAt_of_fits hsome hfits
        obtain rfl : e₃ = e₁ := congrArg Prod.snd (hrun'.symm.trans hfirst)
        rw [← readable_congr (hraised.kept place (by simp [hsame]))]
        exact hfound place ((mem_cons.mp hplace).resolve_left (by simp [hsame]))

end

namespace Search

variable {root after : Element} {least : Int}

theorem length_of_mem_properties {place : List Nat} (h : some place ∈ properties.found root) :
    place.length = 2 := by
  obtain ⟨way, hway, h⟩ := mem_map.mp h
  rw [placeBelow?_nil] at h
  rw [Element.length_of_mem_places (mem_of_mem_head? h)]
  simp only [releaseProperties, mem_cons, not_mem_nil, or_false] at hway
  rcases hway with rfl | rfl | rfl <;> rfl

theorem isSome_at?_of_mem_found (s : Search) {place : List Nat} (h : some place ∈ s.found root) :
    (root.at? place).isSome = true := by
  have hbelow {space : String} {start : List Nat} {way : List String}
      (h : placeBelow? space start root way = some place) : (root.at? place).isSome = true := by
    obtain ⟨place', hplace', rfl⟩ := Option.map_eq_some_iff.mp h
    obtain ⟨here, hhere, hhead⟩ := Option.bind_eq_some_iff.mp hplace'
    rw [Element.at?_append, hhere, Option.bind_some]
    exact Element.isSome_of_mem_places (mem_of_mem_head? hhead)
  cases s with
  | properties =>
    obtain ⟨way, -, h⟩ := mem_map.mp h
    exact hbelow h
  | settings =>
    rw [found] at h
    cases hplugin : compilerPlugin? root with
    | none => simp [hplugin] at h
    | some plugin =>
      rw [hplugin] at h
      obtain ⟨way, -, h⟩ := mem_map.mp h
      exact hbelow h

theorem found_settings_eq (h : Raised least (properties.found root) root after) :
    settings.found after = settings.found root := by
  have htag : after.tag = root.tag := by rw [← Element.tag_bare, h.bare, Element.tag_bare]
  have hplugin : compilerPlugin? after = compilerPlugin? root := by
    refine compilerPlugin?_eq h.bare fun place hlength => h.kept place fun hplace => ?_
    have htwo := length_of_mem_properties hplace.1
    omega
  simp only [found, hplugin, htag, placeBelow?_eq_of_bare h.bare]

/-- The elements that the two searches find. -/
def both (root : Element) : List (Option (List Nat)) := properties.found root ++ settings.found root

theorem short_instrumentable : (Atom.int instrumentable).Short := Value.short_digit (by decide)

/-- With texts that can be read, the elements found are raised. -/
theorem raiseAll_of_readable {e : Element} {done found : List (Option (List Nat))}
    (hdone : ∀ place, some place ∈ done → Readable root place)
    (hfound : ∀ place, some place ∈ found → Readable root place)
    (he : Raised instrumentable done root e) :
    ∃ e', (found.mapM (raiseSome instrumentable)).run e =
        (.ok (found.map (raisedRelease instrumentable root)), e') ∧
      Raised instrumentable (done ++ found) root e' := by
  have hfits {place : List Nat} (h : Readable root place) :=
    (fits_iff_readable short_instrumentable).mpr h
  exact (raiseAll_run (fun place hplace => (hfits (hdone place hplace)).2) he
    fun place hplace => (hfits (hfound place hplace)).1).1
      fun place hplace => (hfits (hfound place hplace)).2

/-- With texts that can be read, both searches succeed, and no release is declared. -/
theorem requireInstrumentable_of_readable
    (h : ∀ place, some place ∈ both root → Readable root place) :
    ∃ raised, Raised instrumentable (both root) root raised ∧
      requireInstrumentable.run root = dropNamespace.run raised := by
  have hstart : Raised instrumentable [] root root := raised_of_not_below (by simp)
  have hfirst (place : List Nat) (hplace : some place ∈ properties.found root) :=
    h place (mem_append_left _ hplace)
  obtain ⟨mid, hrun, hmid⟩ := raiseAll_of_readable (by simp) hfirst hstart
  rw [nil_append] at hmid
  obtain ⟨raised, hrun', hraised⟩ := raiseAll_of_readable hfirst
    (fun place hplace => h place (mem_append_right _ hplace)) hmid
  have hproperties : (raiseProperties instrumentable).run root = _ :=
    (properties.raise_eq instrumentable root).trans hrun
  have hsettings : (raisePlugin instrumentable).run mid = _ :=
    settings.raise_eq instrumentable mid
  rw [found_settings_eq hmid, hrun'] at hsettings
  -- there are versions of three properties
  have hthree : ((properties.found root).map (raisedRelease instrumentable root) ==
      [none, none]) = false := by
    rw [beq_eq_false_iff_ne]
    intro hsame
    have := congrArg List.length hsame
    simp [found, releaseProperties] at this
  refine ⟨raised, hraised, ?_⟩
  rw [requireInstrumentable, run_bind_of_ok hproperties, run_bind_of_ok hsettings, hthree]
  rfl

theorem readable_of_requireInstrumentable (h : (requireInstrumentable.run root).1.isOk = true) :
    ∀ place, some place ∈ both root → Readable root place := by
  obtain ⟨u, hu⟩ := Outcome.exists_of_isOk h
  obtain ⟨versions, mid, hproperties, hrest⟩ := run_bind_eq_ok.mp (Prod.ext hu rfl)
  obtain ⟨versions', e, hsettings, -⟩ := run_bind_eq_ok.mp hrest
  have hrun := (properties.raise_eq instrumentable root).symm.trans hproperties
  have hfirst := readable_of_raiseAll short_instrumentable
    (fun place => properties.isSome_at?_of_mem_found) hrun
  have hrun' := (settings.raise_eq instrumentable mid).symm.trans hsettings
  have hsecond := readable_of_raiseAll short_instrumentable
    (fun place => settings.isSome_at?_of_mem_found) hrun'
  -- the properties were raised, and the settings are not among them
  have hstart : Raised instrumentable [] root root := raised_of_not_below (by simp)
  obtain ⟨mid', hrun'', hmid⟩ := raiseAll_of_readable (by simp) hfirst hstart
  obtain rfl : mid' = mid := congrArg Prod.snd (hrun''.symm.trans hrun)
  rw [nil_append] at hmid
  rw [found_settings_eq hmid] at hsecond
  intro place hplace
  rcases mem_append.mp hplace with hplace | hplace
  · exact hfirst place hplace
  · rw [← readable_congr (hmid.kept place fun hboth => ?_)]
    · exact hsecond place hplace
    · have htwo := length_of_mem_properties hboth.1
      have hfive := length_of_mem_settings hplace
      omega

end Search

open Search

variable {root : Element}

theorem update_of_readable (room : ℕ) (h : ∀ place, some place ∈ both root → Readable root place) :
    ∃ raised, Raised instrumentable (both root) root raised ∧
      update room root =
        let (stripped, done) := raised.unqualify (Element.namespaceOf root.tag)
        (stripped, if done then some (stripped.written room) else none) := by
  obtain ⟨raised, hraised, hrun⟩ := requireInstrumentable_of_readable h
  have htag : raised.tag = root.tag := by rw [← Element.tag_bare, hraised.bare, Element.tag_bare]
  refine ⟨raised, hraised, ?_⟩
  rw [update, hrun, dropNamespace, run_get_state_bind, htag]
  rcases raised.unqualify (Element.namespaceOf root.tag) with ⟨stripped, done⟩
  cases done <;> rfl

theorem update_of_not_readable (room : ℕ)
    (h : ¬∀ place, some place ∈ both root → Readable root place) : (update room root).2 = none := by
  have hfail := mt readable_of_requireInstrumentable h
  rw [update]
  generalize requireInstrumentable.run root = r at hfail
  rcases r with ⟨f | u, e⟩
  · rfl
  · exact absurd rfl hfail

/-- A description is written when it has a namespace and the texts found can be read, and otherwise
its file is left alone. It is written with the releases found raised and the namespace taken off, and
with nothing added. The file holds all of it exactly if there is room for the calls of every piece,
which there is not for an element too many levels down; otherwise it holds a beginning. -/
theorem update_spec (room : ℕ) (hroot : root.WellFormed) :
    ((update room root).2.isSome = true ↔ Element.namespaceOf root.tag ≠ "" ∧
      ∀ place, some place ∈ both root → Readable root place) ∧
    ∀ held, (update room root).2 = some held →
      (∀ place x, (update room root).1.at? place = some x →
        ¬(Element.namespaceOf root.tag).toList <+: x.tag.toList) ∧
      (∀ place n, some place ∈ both root → NamesAt (update room root).1 place n →
        instrumentable ≤ n) ∧
      (∃ raised, Raised instrumentable (both root) root raised ∧
        ∀ place, ((update room root).1.at? place).map Element.label = (raised.at? place).map fun x =>
          (Element.localTag (Element.namespaceOf root.tag) x.tag, x.label.2)) ∧
      held <+: (update room root).1.pieces ∧
      (held = (update room root).1.pieces ↔ ∀ w ∈ (update room root).1.writes 1, w.1 ≤ room) ∧
      ∀ place x, (update room root).1.at? place = some x → room < place.length + 2 →
        held ≠ (update room root).1.pieces := by
  by_cases hread : ∀ place, some place ∈ both root → Readable root place
  · obtain ⟨raised, hraised, hupdate⟩ := update_of_readable room hread
    rw [hupdate]
    rcases Element.namespaceOf_cases (hroot [] root rfl) with ⟨hspace, hbrace⟩ | ⟨uri, huri⟩
    · have htag : raised.tag = root.tag := by rw [← Element.tag_bare, hraised.bare, Element.tag_bare]
      have hstop := Element.unqualify_empty (e := raised) (by rwa [htag])
      simp [hspace, hstop]
    · generalize Element.namespaceOf root.tag = space at huri ⊢
      have hbrace : '\x7d' ∈ space.toList := by rw [huri]; simp
      have hlabel := Element.at?_unqualify hbrace raised
      have hdone : (raised.unqualify space).2 = true := by rw [Element.unqualify_eq hbrace]
      have hne : space ≠ "" := by
        rintro rfl
        cases huri
      have htext := Element.textAt_unqualify hbrace raised
      generalize raised.unqualify space = r at hlabel hdone htext ⊢
      obtain ⟨stripped, _⟩ := r
      obtain rfl := hdone
      refine ⟨by simpa [hne] using hread, fun held hheld => ?_⟩
      obtain rfl := Option.some_inj.mp hheld
      refine ⟨fun place x hx => ?_, fun place n hplace hn => ?_, ⟨raised, hraised, hlabel⟩, ?_,
        Element.written_eq_pieces_iff, fun place x hx hdeep hall => ?_⟩
      · have hx' := hlabel place
        rw [hx, Option.map_some, eq_comm, Option.map_eq_some_iff] at hx'
        obtain ⟨y, hy, hsame⟩ := hx'
        have htag : x.tag = Element.localTag space y.tag := congrArg Prod.fst hsame.symm
        rw [htag]
        exact Element.not_prefix_localTag huri (hroot.of_bare hraised.bare place y hy)
      · by_contra hlt
        obtain ⟨t, ht, hnames⟩ := hn
        rw [htext] at ht
        exact hraised.not_below hplace ⟨n, ⟨t, ht, hnames⟩, not_le.mp hlt⟩
      · exact (Element.written_eq_take room stripped).symm ▸ take_prefix _ _
      · have hfits := Element.written_eq_pieces_iff.mp hall _ (Element.start_mem_writes hx 1)
        dsimp only at hfits
        omega
  · rw [update_of_not_readable room hread]
    simp [hread]

/-- A description with an old release, and an element from elsewhere. -/
def outdated : Element :=
  .mk "\x7bmaven\x7dproject" none none [] [.mk "\x7bother\x7dnote" none none [] [],
    .mk "\x7bmaven\x7dproperties" none none [] [.mk "\x7bmaven\x7djava.version" (some "1.5") none [] []]]

theorem wellFormed_outdated : outdated.WellFormed := by
  simp only [outdated, Element.wellFormed_mk, forall_mem_cons, not_mem_nil, false_imp_iff,
    implies_true, and_true]
  exact ⟨.inr ⟨"maven".toList, "project".toList, by simp [Element.Plain]⟩,
    .inr ⟨"other".toList, "note".toList, by simp [Element.Plain]⟩,
    .inr ⟨"maven".toList, "properties".toList, by simp [Element.Plain]⟩,
    .inr ⟨"maven".toList, "java.version".toList, by simp [Element.Plain]⟩⟩

/-- A release found among the properties is raised. -/
theorem update_spec_outdated : outdated.WellFormed ∧
    both outdated = [none, none, some [1, 0], none, none] ∧
    ∃ held, (update 4 outdated).2 = some held ∧ held = (update 4 outdated).1.pieces ∧
      ∀ n, NamesAt (update 4 outdated).1 [1, 0] n → 8 ≤ n := by
  have hheld : (update 4 outdated).2 = some (update 4 outdated).1.pieces := by decide +kernel
  have hboth : both outdated = [none, none, some [1, 0], none, none] := by decide +kernel
  obtain ⟨-, hspec⟩ := update_spec 4 wellFormed_outdated
  obtain ⟨-, hraised, -, -, -, -⟩ := hspec _ hheld
  exact ⟨wellFormed_outdated, hboth, _, hheld, rfl, fun n => hraised [1, 0] n (by rw [hboth]; decide)⟩

example : (update 3 outdated).2 = some [.start "project", .start "\x7bother\x7dnote",
    .stop "\x7bother\x7dnote", .start "properties"] := by
  decide +kernel

/-- A description without any release is written without any. -/
theorem update_declares_nothing :
    both (.mk "\x7bmaven\x7dproject" none none [] []) = [none, none, none, none, none] ∧
      (update 2 (.mk "\x7bmaven\x7dproject" none none [] [])).2 =
        some [.start "project", .stop "project"] := by
  decide +kernel

end RegexCorpus.Pom
