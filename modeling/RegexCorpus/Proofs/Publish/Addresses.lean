import RegexCorpus.Proofs.Publish.Lookup
import RegexCorpus.Proofs.Record.Edit
import Mathlib.Data.List.ReduceOption

/-!
# Addresses under several keys, and of several versions

Some pages give addresses under several keys, the likeliest first; others give one for each version
of a package. The first that is not empty is the one to take, and without any the module should
keep its own. A look-up under keys ends at the first key that is absent, though, and one that goes
through the versions keeps the last address it has seen, also if it is empty.
-/

namespace RegexCorpus
open List Outcome Json Value

theorem Value.mem_of_itemAt {α : Type} {xs : List α} {n : Int} {x : α} (h : itemAt xs n = .ok x) :
    x ∈ xs := by
  unfold itemAt at h
  dsimp only at h
  split at h
  · split at h
    · cases h
      exact mem_of_getElem? ‹_›
    · cases h
  · cases h

theorem Value.isJson_item {v key w : Value} (hv : IsJson v) (h : v.item key = .ok w) :
    IsJson w := by
  cases hv with
  | atom ha =>
    unfold item at h
    split at h
    · contradiction
    · contradiction
    · obtain ⟨n, -, h⟩ := bind_eq_ok.mp h
      obtain ⟨c, -, h⟩ := bind_eq_ok.mp h
      cases h
      exact .atom fun x hx => by cases hx
    · cases h
  | list hxs =>
    obtain ⟨n, -, h⟩ := bind_eq_ok.mp h
    exact hxs w (mem_of_itemAt h)
  | object _ hms =>
    obtain ⟨k, -, h⟩ := bind_eq_ok.mp h
    split at h
    · cases h
      obtain ⟨e, he, rfl⟩ := Option.map_eq_some_iff.mp ‹_›
      obtain ⟨m, hm, rfl⟩ := mem_map.mp (mem_of_find?_eq_some he)
      exact hms m hm
    · cases h

namespace Publish
namespace Module

variable {m : Module} {t : Tools} {page : Value}

/-! ### What a page offers -/

/-- The versions of a package. A list stands for those of its items at whose place it is told by
itself to look. -/
def versionsOf : Value → List Value
  | .dict es => es.map (·.2)
  | .list xs => xs.filterMap fun i => ((Value.list xs).item i).toOption
  | .atom _ => []

def package? (m : Module) (page : Value) : Option Value := do
  let name ← m.name
  let packages ← Value.under? ["packages"] page
  (packages.item name).toOption

/-- The addresses on a page in the order in which they count, with those that are absent. -/
def offered (m : Module) (page : Value) : List (Option Value) :=
  match m.kind with
  | .packagist =>
    ((m.package? page).toList.flatMap versionsOf).map (Value.under? ["source", "url"])
  | kind => (addressKeys kind).map fun key => Value.under? [key] page

def firstFilled (found : List (Option Value)) : Option Value := found.reduceOption.find? Value.holds

def promised (m : Module) (page : Value) : Option Value := firstFilled (m.offered page)

def taken (m : Module) (page : Value) : Option Value :=
  match m.kind with
  | .packagist => endOfSearch (m.offered page).reduceOption
  | _ => firstFilled ((m.offered page).takeWhile Option.isSome)

/-! ### What is taken -/

theorem taken_keys (h : m.kind ≠ .packagist) (page : Value) :
    m.taken page = firstFilled ((m.offered page).takeWhile Option.isSome) := by
  rw [taken]
  cases hkind : m.kind <;> first | rfl | exact absurd hkind h

theorem taken_versions (h : m.kind = .packagist) (page : Value) :
    m.taken page = (m.promised page).or (m.offered page).reduceOption.getLast? := by
  rw [taken, h]
  rfl

theorem settled_snd (m : Module) (found : Outcome (Option Value)) :
    (m.settled found).2 = m.withAddress found.toOption.join := by
  rcases found with f | _ | uri <;> rfl

theorem toOption_firstOf (page : Value) (keys : List String) :
    (firstOf page keys).toOption.join =
      firstFilled ((keys.map fun key => under? [key] page).takeWhile Option.isSome) := by
  induction keys with
  | nil => rfl
  | cons key keys ih =>
    have hget := page.toOption_get key
    rw [firstOf, map_cons, ← hget]
    cases page.get key with
    | error f => rfl
    | ok uri =>
      rw [ok_bind, Except.toOption, takeWhile_cons_of_pos rfl]
      rw [firstFilled, reduceOption_cons_of_some, find?_cons]
      cases uri.holds with
      | true => rfl
      | false => exact ih

theorem toOption_sourceUrl (package version : Value) :
    (sourceUrl package version).toOption =
      (package.item version).toOption.bind (under? ["source", "url"]) := by
  rw [sourceUrl]
  cases package.item version with
  | error f => rfl
  | ok v => exact v.toOption_get_bind "source" ["url"] fun w => w.toOption_get "url"

theorem sourceUrls_eq {package : Value} (hdata : package.IsJson) {parts : List Value}
    (hparts : package.parts = .ok parts) :
    sourceUrls package parts =
      ((versionsOf package).map (Value.under? ["source", "url"])).reduceOption := by
  have hreduce (vs : List Value) : (vs.map (Value.under? ["source", "url"])).reduceOption =
      vs.filterMap (Value.under? ["source", "url"]) := by
    rw [reduceOption, filterMap_map]
    rfl
  simp only [sourceUrls, toOption_sourceUrl, hreduce]
  cases hdata with
  | @atom a _ =>
    -- a text is gone through by letters, and has nothing at them
    cases a with
    | str s =>
      cases hparts
      rw [versionsOf, filterMap_nil, filterMap_map, filterMap_eq_nil_iff]
      exact fun c _ => rfl
    | _ => cases hparts
  | list hxs =>
    cases hparts
    rw [versionsOf, filterMap_filterMap]
  | @object ms hkeys hms =>
    have hversions : versionsOf (.object ms) = ms.map (·.2) := by
      simp [Value.object, versionsOf]
    have hitem (e : String × Value) (he : e ∈ ms) :
        (Value.object ms).item (.str e.1) = .ok e.2 := by
      rw [Value.object, Value.item_dict]
      rw [show Entries.find? _ _ = some e.2 from Value.find?_entriesOf hkeys he]
    have hnames : parts = ms.map fun e => .str e.1 := by
      rw [Value.object, Value.parts, map_map] at hparts
      exact (Except.ok.inj hparts).symm
    rw [hversions, hnames, filterMap_map, filterMap_map]
    refine filterMap_congr fun e he => ?_
    rw [Function.comp_apply, hitem e he]
    rfl

theorem versionsOf_eq_nil {package : Value} {f : Fault} (h : package.parts = .error f) :
    versionsOf package = [] := by
  cases package with
  | atom a => rfl
  | list | dict => cases h

/-- The search among the versions of a package, as far as there is such a package. -/
theorem toOption_search (hdata : page.IsJson) (m : Module) :
    (do
      let name ← field m.name
      let versions ← (do (← page.get "packages").item name)
      return endOfSearch (sourceUrls versions (← versions.parts)) : Outcome _).toOption.join =
    endOfSearch (((m.package? page).toList.flatMap versionsOf).map
      (under? ["source", "url"])).reduceOption := by
  rw [package?, ← page.toOption_get]
  rcases m.name with _ | name
  · rfl
  rw [show field (some name) = .ok name from rfl, ok_bind]
  cases hpackages : page.get "packages" with
  | error f => rfl
  | ok packages =>
    rw [ok_bind]
    change _ = endOfSearch
      (((packages.item name).toOption.toList.flatMap versionsOf).map _).reduceOption
    cases hitem : packages.item name with
    | error f => rfl
    | ok package =>
      have hpackage := isJson_item (isJson_item hdata hpackages) hitem
      have hversions : (.ok package : Outcome Value).toOption.toList.flatMap versionsOf =
          versionsOf package := flatMap_singleton _ _
      rw [ok_bind, hversions]
      cases hparts : package.parts with
      | error f =>
        rw [versionsOf_eq_nil hparts]
        rfl
      | ok parts =>
        rw [← sourceUrls_eq hpackage hparts]
        rfl

theorem learnt_eq_taken (hkind : m.kind = .rubygems ∨ m.kind = .nuget ∨ m.kind = .packagist)
    {p : Page} (hpage : Holds p page) : m.learnt p = m.withAddress (m.taken page) := by
  have hkeys (h : m.kind = .rubygems ∨ m.kind = .nuget) :
      m.learnt p = m.withAddress (m.taken page) := by
    rw [learnt_of_holds (learn_keys h) hpage, settled_snd, toOption_firstOf, taken, offered]
    obtain h | h := h <;> rw [h]
  obtain h | h | h := hkind
  · exact hkeys (.inl h)
  · exact hkeys (.inr h)
  · have hlearnt := learnt_of_holds (learn_packagist h) hpage
    obtain ⟨body, -, hbody⟩ := hpage
    rw [hlearnt, settled_snd, toOption_search (parse_sound hbody).isJson, taken, offered, h]

/-! ### What should be taken -/

variable {found : List (Option Value)}

theorem firstFilled_append (found found' : List (Option Value)) :
    firstFilled (found ++ found') = (firstFilled found).or (firstFilled found') := by
  rw [firstFilled, reduceOption_append, find?_append]
  rfl

theorem firstFilled_eq_none : firstFilled found = none ↔ ∀ v, some v ∈ found → v.holds = false := by
  simp [firstFilled, reduceOption_mem_iff]

theorem holds_of_firstFilled {v : Value} (h : firstFilled found = some v) :
    some v ∈ found ∧ v.holds = true :=
  ⟨reduceOption_mem_iff.mp (mem_of_find?_eq_some h), find?_some h⟩

theorem withAddress_eq_iff {uri uri' : Option Value} :
    m.withAddress uri = m.withAddress uri' ↔ uri.or m.vcsUri = uri'.or m.vcsUri := by
  refine ⟨congrArg vcsUri, fun h => ?_⟩
  rw [withAddress, h, withAddress]

/-- The look-up comes out as it should. Under keys, no key may be absent before the first address
that is not empty; among versions, one address must not be empty, or none may be present. Otherwise
the module must have had the address before. -/
def KeepsPromise (m : Module) (page : Value) : Prop :=
  match m.kind with
  | .packagist => m.promised page = none →
      ∀ v, (m.offered page).reduceOption.getLast? = some v → m.vcsUri = some v
  | _ => ∀ v, m.promised page = some v →
      some v ∈ (m.offered page).takeWhile Option.isSome ∨ m.vcsUri = some v

theorem keepsPromise_keys (h : m.kind ≠ .packagist) :
    m.withAddress (m.taken page) = m.withAddress (m.promised page) ↔ m.KeepsPromise page := by
  have htaken := taken_keys h page
  have hkeeps : m.KeepsPromise page ↔ ∀ v, m.promised page = some v →
      some v ∈ (m.offered page).takeWhile Option.isSome ∨ m.vcsUri = some v := by
    rw [KeepsPromise]
    cases hkind : m.kind <;> first | rfl | exact absurd hkind h
  have hpromised : m.promised page = (m.taken page).or
      (firstFilled ((m.offered page).dropWhile Option.isSome)) := by
    rw [htaken, ← firstFilled_append, takeWhile_append_dropWhile, promised]
  rw [withAddress_eq_iff, hkeeps]
  cases hfound : m.taken page with
  | some v =>
    rw [hfound, Option.some_or] at hpromised
    rw [hpromised]
    simp [(holds_of_firstFilled (htaken ▸ hfound)).1]
  | none =>
    -- what is not empty stands behind an absent key, so it is not taken
    have habsent (v : Value) (hv : m.promised page = some v) :
        some v ∉ (m.offered page).takeWhile Option.isSome := by
      intro hmem
      have hempty := firstFilled_eq_none.mp (htaken ▸ hfound) v hmem
      rw [(holds_of_firstFilled hv).2] at hempty
      cases hempty
    cases hv : m.promised page with
    | none => simp
    | some v => simp [habsent v hv]

theorem keepsPromise_versions (h : m.kind = .packagist) :
    m.withAddress (m.taken page) = m.withAddress (m.promised page) ↔ m.KeepsPromise page := by
  rw [withAddress_eq_iff, KeepsPromise, taken_versions h, h]
  dsimp only
  cases m.promised page with
  | some v => simp
  | none => cases (m.offered page).reduceOption.getLast? <;> simp [eq_comm]

theorem keepsPromise_iff :
    m.withAddress (m.taken page) = m.withAddress (m.promised page) ↔ m.KeepsPromise page := by
  by_cases h : m.kind = .packagist
  · exact keepsPromise_versions h
  · exact keepsPromise_keys h

theorem takes_empty_iff :
    (∃ v, m.taken page = some v ∧ v.holds = false) ↔
      m.kind = .packagist ∧ m.promised page = none ∧ ∃ v, some v ∈ m.offered page := by
  constructor
  · rintro ⟨v, htaken, hempty⟩
    have hfilled {found : List (Option Value)} (h : firstFilled found = some v) : False := by
      rw [(holds_of_firstFilled h).2] at hempty
      cases hempty
    by_cases hkind : m.kind = .packagist
    · rw [taken_versions hkind, Option.or_eq_some_iff] at htaken
      obtain h | ⟨hnone, hlast⟩ := htaken
      · exact (hfilled h).elim
      · exact ⟨hkind, hnone, v, reduceOption_mem_iff.mp (mem_of_getLast? hlast)⟩
    · rw [taken_keys hkind] at htaken
      exact (hfilled htaken).elim
  · rintro ⟨hkind, hnone, v, hv⟩
    cases hlast : (m.offered page).reduceOption.getLast? with
    | none =>
      rw [getLast?_eq_none_iff] at hlast
      have hmem := reduceOption_mem_iff.mpr hv
      rw [hlast] at hmem
      cases hmem
    | some w =>
      have hmem := reduceOption_mem_iff.mp (mem_of_getLast? hlast)
      refine ⟨w, ?_, firstFilled_eq_none.mp hnone w hmem⟩
      rw [taken_versions hkind, hnone, Option.none_or, hlast]

/-- A look-up under keys, or among versions, leaves the address that is taken. It is the one to take
exactly if the look-up comes out as it should, and it is empty only where all versions with an
address have an empty one. -/
theorem lookUp_promised_iff (hkind : m.kind = .rubygems ∨ m.kind = .nuget ∨ m.kind = .packagist)
    {address : Value} (haddress : m.pageAddress = .ok address) (hpage : Holds t.page page) :
    lookUp.run m t = ((Except.ok (), m.withAddress (m.taken page)), asked t address) ∧
    (lookUp.run m t = ((Except.ok (), m.withAddress (m.promised page)), asked t address) ↔
      m.KeepsPromise page) ∧
    ((∃ v, m.taken page = some v ∧ v.holds = false) ↔
      m.kind = .packagist ∧ m.promised page = none ∧ ∃ v, some v ∈ m.offered page) := by
  have hasks : asksPage m.kind = true := by
    obtain h | h | h := hkind <;> rw [h] <;> rfl
  have hrun := lookUp_run hasks haddress t
  rw [hpage.ending_eq, learnt_eq_taken hkind hpage] at hrun
  refine ⟨hrun, ?_, takes_empty_iff⟩
  rw [hrun, ← keepsPromise_iff]
  refine ⟨fun h => ?_, fun h => by rw [h]⟩
  exact congrArg (fun r : (Outcome Unit × Module) × Tools => r.1.2) h

def unplacedGem : Module := { kind := .rubygems, name := some (.str "b"), vcsUri := some noVcsUri }

/-- The page of a gem with a home page; its source is empty if it is present. -/
def gemPage (source : Bool) : Value :=
  .object ((if source then [("source_code_uri", .null)] else []) ++
    [("homepage_uri", .str "https://github.com/a/b")])

theorem holds_gemPage (source : Bool) :
    Holds (.text (render (gemPage source))) (gemPage source) := by
  cases source <;>
    exact holds_render (by simp [gemPage]) (by simp [gemPage, nestingLimit])

/-- A gem is found at its home page if all that counts more is present and empty. -/
theorem lookUp_promised_homepage :
    lookUp.run unplacedGem { page := .text (Json.render (gemPage true)) } =
      ((Except.ok (), { unplacedGem with vcsUri := some (.str "https://github.com/a/b") }),
        { page := .text (Json.render (gemPage true))
          addresses := [.str "https://rubygems.org/api/v1/gems/b.json"] }) := by
  refine (lookUp_promised_iff (m := unplacedGem)
    (t := { page := .text (Json.render (gemPage true)) }) (.inl rfl) rfl
    (holds_gemPage true)).2.1.mpr fun v hv => .inl ?_
  cases hv
  exact .tail _ (.head _)

def unplacedPackage : Module :=
  { kind := .packagist, name := some (.str "a/b"), vcsUri := some noVcsUri }

/-- The page of a package with one version, whose address is empty. -/
def packagePage : Value := .object [("packages", .object [("a/b", .object [
  ("1.0", .object [("source", .object [("url", .str "")])])])])]

/-- A home page is not taken if the source is absent, and an empty address is taken from a
version. -/
theorem lookUp_breaks_promise :
    (lookUp.run unplacedGem { page := .text (Json.render (gemPage false)) } =
        ((Except.ok (), unplacedGem),
          { page := .text (Json.render (gemPage false))
            addresses := [.str "https://rubygems.org/api/v1/gems/b.json"] }) ∧
      unplacedGem.promised (gemPage false) = some (.str "https://github.com/a/b")) ∧
    (lookUp.run unplacedPackage { page := .text (Json.render packagePage) } =
        ((Except.ok (), { unplacedPackage with vcsUri := some (.str "") }),
          { page := .text (Json.render packagePage)
            addresses := [.str "https://repo.packagist.org/p/a/b.json"] }) ∧
      unplacedPackage.promised packagePage = none) := by
  have hpackage : Holds (.text (Json.render packagePage)) packagePage :=
    holds_render (by simp [packagePage]) (by simp [packagePage, Json.nestingLimit])
  refine ⟨⟨?_, rfl⟩, ?_, rfl⟩
  · rw [lookUp_run rfl rfl, learnt_eq_taken (.inl rfl) (holds_gemPage false)]
    rfl
  · rw [lookUp_run rfl rfl, learnt_eq_taken (.inr (.inr rfl)) hpackage]
    rfl

end Module
end Publish
end RegexCorpus
