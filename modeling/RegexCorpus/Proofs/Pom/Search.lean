import RegexCorpus.Proofs.Pom.Release
import Mathlib.Data.List.Find

/-!
# Searching a build description for releases

Two searches raise the releases of a description: one goes through the properties, the other through
the settings of the compiler plugin. What they find does not change by raising it, so that the
second time nothing is left to be raised.
-/

namespace RegexCorpus.Pom
open List

/-- The searches for elements that name a release: among the properties, and among the settings of
the compiler plugin. -/
inductive Search where
  | properties
  | settings

/-- The first place at the end of a way of names that starts at another place. -/
def placeBelow? (space : String) (start : List Nat) (e : Element) (way : List String) :
    Option (List Nat) :=
  ((e.at? start).bind fun here => (here.places space way).head?).map (start ++ ·)

theorem placeBelow?_eq_of_bare {e e' : Element} (h : e.bare = e'.bare) (space : String)
    (start : List Nat) : placeBelow? space start e = placeBelow? space start e' := by
  funext way
  have hhead (e : Element) : ((e.at? start).bind fun here => (here.places space way).head?) =
      (e.bare.at? start).bind fun here => (here.places space way).head? := by
    simp only [Element.at?_bare, Option.bind_map, Function.comp_def, Element.places_bare]
  rw [placeBelow?, placeBelow?, hhead e, hhead e', h]

theorem placeBelow?_nil (space : String) (e : Element) (way : List String) :
    placeBelow? space [] e way = (e.places space way).head? := by
  rw [placeBelow?, Element.at?, Option.bind_some]
  cases (e.places space way).head? <;> rfl

theorem raiseFirst_eq (least : Int) (places : List (List Nat)) :
    raiseFirst least places = raiseSome least places.head? := by
  cases places <;> rfl

/-! ### The compiler plugin -/

theorem isSome_of_compilerPlugin? {root : Element} {plugin : List Nat}
    (h : compilerPlugin? root = some plugin) :
    (root.at? plugin).isSome = true ∧ plugin.length = 3 := by
  have hplugin := find?_some h
  have hmem := mem_of_find?_eq_some h
  refine ⟨?_, Element.length_of_mem_places hmem⟩
  cases hx : root.at? plugin with
  | none => simp [hx] at hplugin
  | some x => rfl

theorem isCompilerPlugin_eq (space : String) (e : Element) :
    isCompilerPlugin space e =
      e.marks.any fun m => m.1 == space ++ "artifactId" && m.2 == some "maven-compiler-plugin" := by
  rw [isCompilerPlugin, Element.marks, any_map]
  rfl

theorem compilerPlugin?_eq {e e' : Element} (hbare : e'.bare = e.bare)
    (htext : ∀ place, place.length = 4 → e'.textAt place = e.textAt place) :
    compilerPlugin? e' = compilerPlugin? e := by
  have htag : e'.tag = e.tag := by rw [← Element.tag_bare, hbare, Element.tag_bare]
  rw [compilerPlugin?, compilerPlugin?, htag, Element.places_eq_of_bare hbare]
  refine find?_congr fun place hplace => ?_
  have hlength : place.length = 3 := Element.length_of_mem_places hplace
  have hat : (e'.at? place).map Element.bare = (e.at? place).map Element.bare := by
    rw [← Element.at?_bare, hbare, Element.at?_bare]
  have hchild (i : Nat) :
      (e'.at? place).bind (·.textAt [i]) = (e.at? place).bind (·.textAt [i]) := by
    rw [← Element.textAt_append, ← Element.textAt_append]
    exact htext _ (by simp [hlength])
  cases hx : e.at? place with
  | none =>
    rw [hx, Option.map_none, Option.map_eq_none_iff] at hat
    rw [hat]
  | some x =>
    rw [hx, Option.map_some, Option.map_eq_some_iff] at hat
    obtain ⟨x', hx', hbare'⟩ := hat
    simp only [hx, hx', Option.bind_some] at hchild ⊢
    rw [isCompilerPlugin_eq, isCompilerPlugin_eq, Element.marks_eq_of_bare hbare' hchild]

namespace Search

variable {root after : Element} {least : Int}

def raise : Search → Int → Edit Element (List (Option Int))
  | properties, least => raiseProperties least
  | settings, least => raisePlugin least

/-- Where a search finds the elements that name a release, and where it finds none. -/
def found : Search → Element → List (Option (List Nat))
  | properties, root =>
    releaseProperties.map (placeBelow? (Element.namespaceOf root.tag) [] root)
  | settings, root => match compilerPlugin? root with
    | none => pluginSettings.map fun _ => none
    | some plugin =>
      pluginSettings.map (placeBelow? (Element.namespaceOf root.tag) plugin root)

/-- A search raises the elements that it finds at first, in order. -/
theorem raise_eq (s : Search) (least : Int) (root : Element) :
    (s.raise least).run root = ((s.found root).mapM (raiseSome least)).run root := by
  cases s with
  | properties =>
    have hlook (e : Element) (h : e.bare = root.bare) :=
      placeBelow?_eq_of_bare h (Element.namespaceOf root.tag) []
    rw [raise, raiseProperties, run_get_state_bind]
    simp only [raiseFirst_eq, ← placeBelow?_nil]
    exact mapM_raiseLooked hlook least releaseProperties rfl
  | settings =>
    rw [raise, raisePlugin, run_get_state_bind, found]
    cases hplugin : compilerPlugin? root with
    | none => rfl
    | some plugin =>
      simp only [raiseFirst_eq]
      refine mapM_raiseLooked (fun e h => ?_) least pluginSettings rfl
      rw [← placeBelow?_eq_of_bare h]
      have hsome : (e.at? plugin).isSome = true := by
        rw [← Option.isSome_map, ← Element.at?_bare, h, Element.at?_bare, Option.isSome_map]
        exact (isSome_of_compilerPlugin? hplugin).1
      obtain ⟨here, hhere⟩ := Option.isSome_iff_exists.mp hsome
      funext way
      rw [placeBelow?, hhere, Option.bind_some, ← head?_map, Option.getD_some]

theorem length_of_mem_settings {place : List Nat} (h : some place ∈ settings.found root) :
    place.length = 5 := by
  rw [found] at h
  cases hplugin : compilerPlugin? root with
  | none =>
    rw [hplugin] at h
    simp at h
  | some plugin =>
    rw [hplugin] at h
    obtain ⟨way, hway, h⟩ := mem_map.mp h
    obtain ⟨place', hplace', rfl⟩ := Option.map_eq_some_iff.mp h
    obtain ⟨here, -, hhead⟩ := Option.bind_eq_some_iff.mp hplace'
    have hlength := Element.length_of_mem_places (mem_of_mem_head? hhead)
    have htwo : way.length = 2 := by
      simp only [pluginSettings, mem_cons, not_mem_nil, or_false] at hway
      obtain rfl | rfl := hway <;> rfl
    rw [length_append, (isSome_of_compilerPlugin? hplugin).2, hlength, htwo]

theorem found_eq (s : Search) (h : Raised least (s.found root) root after) :
    s.found after = s.found root := by
  have htag : after.tag = root.tag := by rw [← Element.tag_bare, h.bare, Element.tag_bare]
  cases s with
  | properties => rw [found, found, htag, placeBelow?_eq_of_bare h.bare]
  | settings =>
    have hplugin : compilerPlugin? after = compilerPlugin? root := by
      refine compilerPlugin?_eq h.bare fun place hlength => h.kept place fun hplace => ?_
      have hfive := length_of_mem_settings hplace.1
      omega
    simp only [found, hplugin, htag, placeBelow?_eq_of_bare h.bare]

/-- What is returned for an element that was looked for: nothing if it was not found or names no
release, and otherwise the higher one of its release and the minimum, which it names afterwards. -/
def Reported (least : Int) (root after : Element) : Option (List Nat) → Option Int → Prop
  | none, version => version = none
  | some place, version => ∀ n,
      (version = some n ↔ ∃ k, NamesAt root place k ∧ n = max least k) ∧
      (version = some n ↔ NamesAt after place n)

theorem reported_raisedRelease {found : List (Option (List Nat))} (h : Raised least found root after) {p : Option (List Nat)}
    (hmem : p ∈ found) (hfits : ∀ place, p = some place → Fits least root place) :
    Reported least root after p (raisedRelease least root p) := by
  cases p with
  | none => rfl
  | some place =>
    intro n
    constructor
    · rw [raisedRelease, Option.map_eq_some_iff]
      exact exists_congr fun k => and_congr releaseAt_eq_some eq_comm
    · rw [← h.releaseAt_eq hmem (hfits place rfl), releaseAt_eq_some]

theorem Reported.eq_raisedRelease {p : Option (List Nat)} {version : Option Int}
    (h : Reported least root after p version) : version = raisedRelease least root p := by
  cases p with
  | none => exact h
  | some place =>
    refine Option.ext fun n => ?_
    rw [(h n).1, raisedRelease, Option.map_eq_some_iff]
    exact exists_congr fun k => and_congr releaseAt_eq_some.symm eq_comm

/-- A search returns a release for each element that it looks for, none below the minimum. It
changes only texts of elements that it finds, where they name a release below the minimum, and a
second time it returns the same and changes nothing. If a number has too many digits the search
fails; some of the elements are raised then. -/
theorem raise_run (s : Search) (least : Int) {root : Element}
    (htext : ∀ place, some place ∈ s.found root → (root.textAt place).isSome = true) :
    ((∀ place, some place ∈ s.found root → Fits least root place) →
      ∃ versions after, (s.raise least).run root = (Except.ok versions, after) ∧
        List.Forall₂ (Reported least root after) (s.found root) versions ∧
        (∀ n, some n ∈ versions → least ≤ n) ∧
        Raised least (s.found root) root after ∧
        (s.raise least).run after = (Except.ok versions, after)) ∧
    ((∃ place, some place ∈ s.found root ∧ ¬Fits least root place) →
      ∃ before after, (s.raise least).run root = (Except.error (.badValue ""), after) ∧
        before <+: s.found root ∧ Raised least before root after) := by
  have hstart : Raised least [] root root := raised_of_not_below (by simp)
  obtain ⟨hok, herror⟩ := raiseAll_run (by simp) hstart htext
  rw [raise_eq]
  refine ⟨fun hfits => ?_, herror⟩
  obtain ⟨after, hrun, hraised⟩ := hok hfits
  rw [nil_append] at hraised
  refine ⟨_, after, hrun, ?_, ?_, hraised, ?_⟩
  · rw [forall₂_map_right_iff, forall₂_same]
    exact fun p hp => reported_raisedRelease hraised hp fun place h => hfits place (h ▸ hp)
  · intro n hn
    obtain ⟨p, -, hp⟩ := mem_map.mp hn
    cases p with
    | none => cases hp
    | some place =>
      obtain ⟨k, -, rfl⟩ := Option.map_eq_some_iff.mp hp
      exact le_max_left least k
  · have hagain : Raised least [] after after := raised_of_not_below (by simp)
    obtain ⟨hok', -⟩ := raiseAll_run (by simp) hagain fun place h =>
      hraised.isSome_textAt (htext place h)
    obtain ⟨after', hrun', hraised'⟩ := hok' fun place h => hraised.fits (hfits place h)
    have hversions : (s.found root).map (raisedRelease least after) =
        (s.found root).map (raisedRelease least root) := by
      refine map_congr_left fun p hp => ?_
      cases p with
      | none => rfl
      | some place => exact hraised.raisedRelease_eq (hfits place hp)
    rw [nil_append] at hraised'
    rw [raise_eq, s.found_eq hraised, hrun', hversions,
      hraised'.eq_of_not_below fun place h => hraised.not_below h]

/-- A description in a namespace, with the texts of its three properties. -/
def withProperties (source target version : String) : Element :=
  .mk "\x7bmaven\x7dproject" none none [] [.mk "\x7bmaven\x7dproperties" none none [] [
    .mk "\x7bmaven\x7dmaven.compiler.source" (some source) none [] [],
    .mk "\x7bmaven\x7dmaven.compiler.target" (some target) none [] [],
    .mk "\x7bmaven\x7djava.version" (some version) none [] []]]

theorem found_withProperties (source target version : String) :
    properties.found (withProperties source target version) =
      [some [0, 0], some [0, 1], some [0, 2]] := by
  have hspace : Element.namespaceOf "\x7bmaven\x7dproject" = "\x7bmaven\x7d" := by decide
  simp [found, withProperties, placeBelow?_nil, releaseProperties, Element.tag, hspace,
    Element.places, Element.children, Element.meets]

theorem forall_found_withProperties {source target version : String} {P : List Nat → Prop}
    (hsource : P [0, 0]) (htarget : P [0, 1]) (hversion : P [0, 2]) (place : List Nat)
    (h : some place ∈ properties.found (withProperties source target version)) : P place := by
  rw [found_withProperties] at h
  simp only [mem_cons, Option.some.injEq, not_mem_nil, or_false] at h
  obtain rfl | rfl | rfl := h <;> assumption

theorem fits_of_release? {e : Element} {place : List Nat} {t : String} {version : Option Int}
    (ht : e.textAt place = some t) (h : release? t = .ok version) (hshort : (Atom.int least).Short) :
    Fits least e place := by
  refine ⟨fun t' ht' => ?_, fun _ => hshort⟩
  rw [ht, Option.some.injEq] at ht'
  exact ht' ▸ not_isOverlong h

/-- A description with a low release, a text that names none, and a high release. -/
def mixedReleases : Element := withProperties "1.6" "$\x7bjava.version\x7d" "1.11"

/-- The low release is raised, and the other texts stay. -/
theorem raise_run_mixedReleases :
    ∃ after, (properties.raise 8).run mixedReleases =
        (Except.ok [some 8, none, some 11], after) ∧
      after.textAt [0, 0] = some "1.8" ∧ after.textAt [0, 1] = some "$\x7bjava.version\x7d" ∧
      after.textAt [0, 2] = some "1.11" ∧
      (properties.raise 8).run after = (Except.ok [some 8, none, some 11], after) := by
  have hlow : release? "1.6" = .ok (some 6) := rfl
  have hnone : release? "$\x7bjava.version\x7d" = .ok none := rfl
  have hhigh : release? "1.11" = .ok (some 11) := rfl
  have hshort : (Atom.int 8).Short := Value.short_digit (by decide)
  have htext : ∀ place, some place ∈ properties.found mixedReleases →
      (mixedReleases.textAt place).isSome = true := forall_found_withProperties rfl rfl rfl
  obtain ⟨versions, after, hrun, hreported, -, hraised, hagain⟩ := (raise_run properties 8 htext).1
    (forall_found_withProperties (fits_of_release? rfl hlow hshort)
      (fits_of_release? rfl hnone hshort) (fits_of_release? rfl hhigh hshort))
  have hfound : properties.found mixedReleases = _ := found_withProperties _ _ _
  rw [hfound] at hreported hraised
  have hversions : versions = [some 8, none, some 11] := by
    rcases hreported with _ | ⟨hfirst, _ | ⟨hsecond, _ | ⟨hthird, _ | _⟩⟩⟩
    rw [hfirst.eq_raisedRelease, hsecond.eq_raisedRelease, hthird.eq_raisedRelease]
    rfl
  rw [hversions] at hrun hagain
  refine ⟨after, hrun, ?_, ?_, ?_, hagain⟩
  · exact hraised.raised [0, 0] (by simp) ⟨6, ⟨"1.6", rfl, release?_eq_some.mp hlow⟩, by decide⟩
  · refine hraised.kept [0, 1] fun h => not_below_iff.mpr (fun n hn => ?_) h.2
    cases hn
  · refine hraised.kept [0, 2] fun h => not_below_iff.mpr (fun n hn => ?_) h.2
    cases hn
    decide

/-- The text for a release of nothing but nines. -/
def nines (n : Nat) : String := String.ofList ('1' :: '.' :: List.replicate n '9')

theorem isOverlong_nines {n : Nat} (h : Text.maxDigits < n) : IsOverlong (nines n) := by
  have hlength : (replicate n '9').length = n := length_replicate
  refine ⟨replicate n '9', ⟨fun hnil => ?_, fun c hc => ?_, [], ?_, by simp⟩, by rwa [hlength]⟩
  · rw [hnil, length_nil] at hlength
    omega
  · rw [eq_of_mem_replicate hc]
    decide
  · rw [nines, String.toList_ofList, append_nil]

/-- A single release with too many digits makes the search fail. -/
theorem raise_fails_on_nines :
    ((properties.raise 8).run (withProperties "1.8" "1.8" (nines 4301))).1 =
      .error (.badValue "") := by
  have hlong : IsOverlong (nines 4301) := isOverlong_nines (by decide)
  have hstart : Raised 8 [] (withProperties "1.8" "1.8" (nines 4301))
      (withProperties "1.8" "1.8" (nines 4301)) := raised_of_not_below (by simp)
  have hplace : some [0, 2] ∈ properties.found (withProperties "1.8" "1.8" (nines 4301)) := by
    rw [found_withProperties]
    simp
  obtain ⟨before, after, hrun, -⟩ := (raiseAll_run (by simp) hstart
    (forall_found_withProperties rfl rfl rfl)).2 ⟨[0, 2], hplace, fun h => h.1 _ rfl hlong⟩
  rw [raise_eq, hrun]

end Search
end RegexCorpus.Pom
