import RegexCorpus.Publish.Lookup
import RegexCorpus.Proofs.Json.Failure
import RegexCorpus.Proofs.Json.Reader
import RegexCorpus.Proofs.Key
import RegexCorpus.Proofs.Text.Search

/-!
# What a registry tells about a module

A look-up asks for one page and learns an address from it, or nothing; apart from that address the
module stays as it was. Which address is learnt depends on the registry.
-/

namespace RegexCorpus
open List Outcome Json

/-- The value under a way of keys, through dictionaries only. -/
def Value.under? : List String → Value → Option Value
  | [], v => some v
  | key :: way, .dict es => (Entries.find? es (.str key)).bind (under? way)
  | _ :: _, _ => none

theorem Value.toOption_get_bind (v : Value) (key : String) (way : List String)
    {f : Value → Outcome Value} (hf : ∀ w, (f w).toOption = under? way w) :
    (v.get key >>= f).toOption = under? (key :: way) v := by
  cases hv : v.get key with
  | ok w =>
    obtain ⟨es, rfl, hfind⟩ := get_eq_ok.mp hv
    rw [ok_bind, hf, under?, hfind, Option.bind_some]
  | error e =>
    cases v with
    | dict es =>
      have hnone : Entries.find? es (.str key) = none := by
        rw [Option.eq_none_iff_forall_ne_some]
        intro w hw
        rw [get_eq_ok.mpr ⟨es, rfl, hw⟩] at hv
        cases hv
      rw [under?, hnone]
      rfl
    | atom | list => rfl

theorem Value.toOption_get (v : Value) (key : String) : (v.get key).toOption = under? [key] v := by
  have h := v.toOption_get_bind key [] (f := Except.ok) fun _ => rfl
  rwa [show (v.get key >>= Except.ok) = v.get key from bind_pure _] at h

theorem Value.uninterrupted_item (v key : Value) : Uninterrupted (v.item key) := by
  have htoKey : Uninterrupted key.toKey := by
    unfold toKey
    split <;> simp [Uninterrupted]
  have htoIndex : Uninterrupted key.toIndex := by
    unfold toIndex
    split <;> simp [Uninterrupted]
  have hitemAt {α : Type} (xs : List α) (n : Int) : Uninterrupted (itemAt xs n) := by
    unfold itemAt
    dsimp only
    split
    · split <;> simp [Uninterrupted]
    · simp [Uninterrupted]
  unfold item
  split
  · refine htoKey.bind fun k => ?_
    split <;> simp [Uninterrupted]
  · exact htoIndex.bind fun n => hitemAt _ n
  · exact htoIndex.bind fun n => (hitemAt _ n).bind fun _ => uninterrupted_ok _
  · simp [Uninterrupted]

theorem Value.uninterrupted_parts (v : Value) : Uninterrupted v.parts := by
  unfold parts
  split <;> simp [Uninterrupted]

namespace Publish

variable {v : Value}

def Holds (p : Page) (v : Value) : Prop := ∃ body, p = .text body ∧ Json.parse body = .ok v

/-- How a request for a page ends: only a wish to stop is passed on. -/
def ending : Page → Outcome Unit
  | .interrupted => .error .interrupted
  | _ => .ok ()

theorem Holds.ending_eq {p : Page} (h : Holds p v) : ending p = .ok () := by
  obtain ⟨body, rfl, -⟩ := h
  rfl

theorem Holds.unique {p : Page} {w : Value} (hv : Holds p v) (hw : Holds p w) : v = w := by
  obtain ⟨body, rfl, hbody⟩ := hv
  obtain ⟨body', hpage, hbody'⟩ := hw
  cases hpage
  rw [hbody, Except.ok.injEq] at hbody'
  exact hbody'

theorem holds_render (hjson : v.IsJson) (hlimit : v.Within nestingLimit) :
    Holds (.text (render v)) v :=
  ⟨_, rfl, parse_render hjson hlimit⟩

/-- The tools after a page has been asked for. -/
def asked (t : Tools) (address : Value) : Tools :=
  { t with addresses := t.addresses ++ [address] }

namespace Module

variable {m : Module} {t : Tools}
variable {as : List String}

/-! ### Looking up -/

def asksPage : Kind → Bool
  | .pypi | .packagist | .nuget | .rubygems => true
  | _ => false

/-- What is left of a module by the page that came back. -/
def learnt (m : Module) : Page → Module
  | .text body => ((learn body).run m).2
  | _ => m

/-- A request for a page, and what is learnt from it. -/
def visit (address : Value) : Ask Module Unit := do
  let body ← Ask.ofConsult (fetch address)
  Ask.ofEdit (learn body)

/-- A fault is passed over unless it is a wish to stop. -/
def passOver (e : Fault) : Ask Module Unit :=
  match e with
  | .interrupted => throw e
  | _ => pure ()

theorem lookUp_eq (hkind : asksPage m.kind = true) (t : Tools) :
    lookUp.run m t = ((liftM m.pageAddress : Ask Module Value) >>= fun address =>
      tryCatch (visit address) passOver).run m t := by
  obtain ⟨kind⟩ := m
  cases kind
  case pypi => rfl
  case packagist => rfl
  case nuget => rfl
  case rubygems => rfl
  all_goals cases hkind

/-! ### What is learnt -/

def withAddress (m : Module) (uri : Option Value) : Module := { m with vcsUri := uri.or m.vcsUri }

/-- What an edit has done that sets the address it finds, unless it fails. -/
def settled (m : Module) : Outcome (Option Value) → Outcome Unit × Module
  | .ok uri => (.ok (), m.withAddress uri)
  | .error f => (.error f, m)

theorem learn_pypi (hkind : m.kind = .pypi) (body : String) :
    (learn body).run m = m.settled (do
      return (← pypiUri (← parse body)).map .str) := by
  rw [learn]
  cases parse body with
  | error f => rfl
  | ok page =>
    rw [run_lift_bind rfl, run_get_state_bind, ok_bind, hkind]
    dsimp only
    rw [run_bind]
    cases pypiUri page with
    | error f => rfl
    | ok uri => cases uri <;> rfl

theorem learn_keys (hkind : m.kind = .rubygems ∨ m.kind = .nuget) (body : String) :
    (learn body).run m = m.settled (do firstOf (← parse body) (addressKeys m.kind)) := by
  rw [learn]
  cases parse body with
  | error f => rfl
  | ok page =>
    rw [run_lift_bind rfl, run_get_state_bind, ok_bind]
    obtain hkind | hkind := hkind
    all_goals
      rw [hkind]
      dsimp only
      rw [run_bind]
      generalize firstOf page _ = found
      rcases found with f | _ | uri <;> rfl

def sourceUrl (versions version : Value) : Outcome Value := do
  ((← (← versions.item version).get "source").get "url")

/-- The source addresses that are found among the versions. -/
def sourceUrls (versions : Value) (parts : List Value) : List Value :=
  parts.filterMap fun version => (sourceUrl versions version).toOption

/-- The address at which a search ends: the first that is not empty, or else the last. -/
def endOfSearch (uris : List Value) : Option Value := (uris.find? Value.holds).or uris.getLast?

theorem endOfSearch_cons (uri : Value) (uris : List Value) :
    endOfSearch (uri :: uris) =
      if uri.holds then some uri else (endOfSearch uris).or (some uri) := by
  rw [endOfSearch, endOfSearch, find?_cons, getLast?_cons, Option.or_assoc]
  split_ifs with h
  · rw [h, Option.some_or]
  · rw [Bool.eq_false_of_not_eq_true h]
    cases uris.getLast? <;> rfl

section
variable {versions version : Value} {rest : List Value}

theorem tryVersions_ok {uri : Value} (h : sourceUrl versions version = .ok uri) (m : Module) :
    (tryVersions versions (version :: rest)).run m =
      if uri.holds then (.ok (), m.withAddress (some uri))
      else (tryVersions versions rest).run (m.withAddress (some uri)) := by
  rw [tryVersions]
  rw [sourceUrl] at h
  rw [h]
  dsimp only
  rw [run_modify_bind]
  split_ifs <;> rfl

theorem tryVersions_error {f : Fault} (h : sourceUrl versions version = .error f) (m : Module) :
    (tryVersions versions (version :: rest)).run m = (tryVersions versions rest).run m := by
  rw [tryVersions]
  rw [sourceUrl] at h
  rw [h]

end

/-- Trying the versions leaves the address at which the search ends, also if it is empty. -/
theorem tryVersions_run (versions : Value) (parts : List Value) (m : Module) :
    (tryVersions versions parts).run m =
      (.ok (), m.withAddress (endOfSearch (sourceUrls versions parts))) := by
  induction parts generalizing m with
  | nil => rfl
  | cons version parts ih =>
    cases h : sourceUrl versions version with
    | error f =>
      have hskip : sourceUrls versions (version :: parts) = sourceUrls versions parts := by
        simp [sourceUrls, h, Except.toOption]
      rw [tryVersions_error h, ih, hskip]
    | ok uri =>
      have hfound :
          sourceUrls versions (version :: parts) = uri :: sourceUrls versions parts := by
        simp [sourceUrls, h, Except.toOption]
      rw [tryVersions_ok h, ih, hfound, endOfSearch_cons]
      split_ifs
      · rfl
      · simp [withAddress]

theorem learn_packagist (hkind : m.kind = .packagist) (body : String) :
    (learn body).run m = m.settled (do
      let page ← parse body
      let name ← field m.name
      let versions ← (do (← page.get "packages").item name)
      return endOfSearch (sourceUrls versions (← versions.parts))) := by
  rw [learn]
  cases parse body with
  | error f => rfl
  | ok page =>
    rw [run_lift_bind rfl, run_get_state_bind, ok_bind, hkind]
    dsimp only
    cases field m.name with
    | error f => rfl
    | ok name =>
      rw [run_lift_bind rfl, ok_bind]
      cases (do (← page.get "packages").item name : Outcome Value) with
      | error f => rfl
      | ok versions =>
        rw [run_lift_bind rfl, ok_bind]
        cases versions.parts with
        | error f => rfl
        | ok parts =>
          rw [run_lift_bind rfl, ok_bind, tryVersions_run]
          rfl

/-! ### How a look-up ends -/

variable (page : Value)

theorem uninterrupted_settled {o : Outcome (Option Value)} (h : Uninterrupted o) :
    Uninterrupted (m.settled o).1 := by
  cases o with
  | ok uri => exact uninterrupted_ok ()
  | error f =>
    intro hf
    exact h (congrArg _ (Except.error.inj hf))

theorem uninterrupted_pypiUri : Uninterrupted (pypiUri page) := by
  have husable (found : List Value) : Uninterrupted (usable found) := by
    fun_induction usable found with
    | case1 => exact uninterrupted_ok []
    | case2 rest ih => exact ih
    | case3 v rest _ ih =>
      have htext : Uninterrupted v.text := by
        unfold Value.text
        split <;> simp [Uninterrupted]
      refine htext.bind fun s => ?_
      split_ifs
      · exact ih
      · exact ih.bind fun _ => uninterrupted_ok _
  refine (husable _).bind fun addresses => ?_
  split <;> exact uninterrupted_ok _

theorem uninterrupted_firstOf (keys : List String) : Uninterrupted (firstOf page keys) := by
  induction keys with
  | nil => exact uninterrupted_ok none
  | cons key keys ih =>
    rw [firstOf]
    refine (page.uninterrupted_item _).bind fun uri => ?_
    split_ifs
    · exact uninterrupted_ok _
    · exact ih

theorem uninterrupted_learn (hkind : asksPage m.kind = true) (body : String) :
    Uninterrupted ((learn body).run m).1 := by
  have hparse := uninterrupted_parse body
  have hkeys (h : m.kind = .rubygems ∨ m.kind = .nuget) :
      Uninterrupted ((learn body).run m).1 := by
    rw [learn_keys h]
    exact uninterrupted_settled (hparse.bind fun page => uninterrupted_firstOf page _)
  cases h : m.kind with
  | pypi =>
    rw [learn_pypi h]
    exact uninterrupted_settled (hparse.bind fun page =>
      (uninterrupted_pypiUri page).bind fun _ => uninterrupted_ok _)
  | packagist =>
    rw [learn_packagist h]
    have hfield : Uninterrupted (field m.name) := by
      cases m.name <;> simp [field, Uninterrupted]
    refine uninterrupted_settled (hparse.bind fun page => hfield.bind fun name => ?_)
    refine ((page.uninterrupted_item _).bind fun packages => packages.uninterrupted_item _).bind ?_
    exact fun versions => versions.uninterrupted_parts.bind fun _ => uninterrupted_ok _
  | rubygems => exact hkeys (.inl h)
  | nuget => exact hkeys (.inr h)
  | _ =>
    rw [h] at hkind
    cases hkind

theorem lookUp_run (hkind : asksPage m.kind = true) {address : Value}
    (haddress : m.pageAddress = .ok address) (t : Tools) :
    lookUp.run m t = ((ending t.page, m.learnt t.page), asked t address) := by
  have hstart : lookUp.run m t = (tryCatch (visit address) passOver).run m t := by
    rw [lookUp_eq hkind, haddress]
    rfl
  rw [hstart, ask_tryCatch]
  obtain ⟨replies, page, queries, addresses⟩ := t
  cases page with
  | interrupted | unavailable => rfl
  | text body =>
    have hvisit : (visit address).run m ⟨replies, .text body, queries, addresses⟩ =
        ((learn body).run m, asked ⟨replies, .text body, queries, addresses⟩ address) := rfl
    have hstop := uninterrupted_learn hkind body
    rw [hvisit, learnt]
    generalize (learn body).run m = r at hstop ⊢
    rcases r with ⟨f | ⟨⟩, m'⟩
    · cases f with
      | interrupted => exact absurd rfl hstop
      | _ => rfl
    · rfl

section
variable {p : Page} {read : Value → Outcome (Option Value)}

theorem learnt_of_holds
    (hlearn : ∀ body, (learn body).run m = m.settled (parse body >>= read)) {page : Value}
    (h : Holds p page) : m.learnt p = (m.settled (read page)).2 := by
  obtain ⟨body, rfl, hbody⟩ := h
  rw [learnt, hlearn, hbody]
  rfl

theorem learnt_of_not_holds
    (hlearn : ∀ body, (learn body).run m = m.settled (parse body >>= read))
    (h : ¬∃ page, Holds p page) : m.learnt p = m := by
  cases p with
  | text body =>
    rw [learnt, hlearn]
    cases hbody : parse body with
    | ok page => exact absurd ⟨page, body, rfl, hbody⟩ h
    | error f => rfl
  | unavailable | interrupted => rfl

end

/-! ### Python modules -/

/-- Where the addresses stand on the page of a Python module. -/
def pypiWays : List (List String) :=
  [["info", "home_page"], ["info", "project_urls", "Homepage"], ["info", "project_url"]]

/-- The word "unknown", each letter of it large or small. -/
def IsUnknown (s : String) : Prop :=
  List.Forall₂ (fun c u => c = u ∨ c = u.toLower) s.toList "UNKNOWN".toList

theorem toUpper_eq_iff {c u : Char} (hu : 65 ≤ u.toNat ∧ u.toNat ≤ 90) :
    c.toUpper = u ↔ c = u ∨ c = u.toLower := by
  have heq (d : Char) : c = d ↔ c.toNat = d.toNat := Char.toNat_inj.symm
  have hlower : u.toLower.toNat = u.toNat + 32 := by
    have hlarge : u.val ≥ 'A'.val ∧ u.val ≤ 'Z'.val := hu
    delta Char.toLower
    rw [dif_pos hlarge]
    change (u.val + ('a'.val - 'A'.val)).toNat = _
    rw [UInt32.toNat_add]
    change (u.toNat + 32) % 2 ^ 32 = _
    omega
  have hsmall : ('a'.val ≤ c.val ∧ c.val ≤ 'z'.val) ↔ 97 ≤ c.toNat ∧ c.toNat ≤ 122 := Iff.rfl
  rw [heq, heq, hlower, ← Char.toNat_inj]
  delta Char.toUpper
  split_ifs with hc
  · rw [hsmall] at hc
    have hshift : ('A'.val - 'a'.val).toNat = 4294967264 := by decide
    change (c.val + ('A'.val - 'a'.val)).toNat = _ ↔ _
    rw [UInt32.toNat_add, hshift]
    change (c.toNat + 4294967264) % 2 ^ 32 = _ ↔ _
    omega
  · rw [hsmall] at hc
    omega

theorem capitals_eq_unknown {s : String} : capitals s = "UNKNOWN" ↔ IsUnknown s := by
  have hmap : capitals s = "UNKNOWN" ↔
      List.Forall₂ (fun c u => c.toUpper = u) s.toList "UNKNOWN".toList := by
    rw [capitals, ← String.toList_inj, String.toList_ofList, ← forall₂_eq_eq_eq,
      forall₂_map_left_iff]
  have hletters : "UNKNOWN".toList = ['U', 'N', 'K', 'N', 'O', 'W', 'N'] := rfl
  rw [hmap, IsUnknown, hletters]
  simp only [forall₂_cons_right_iff, forall₂_nil_right_iff,
    toUpper_eq_iff (u := 'U') (by decide), toUpper_eq_iff (u := 'N') (by decide),
    toUpper_eq_iff (u := 'K') (by decide), toUpper_eq_iff (u := 'O') (by decide),
    toUpper_eq_iff (u := 'W') (by decide)]

instance : DecidablePred IsUnknown := fun _ => decidable_of_iff _ capitals_eq_unknown

/-- The text that the data is, unless it says that there is none. -/
def address? : Value → Option String
  | .str s => if IsUnknown s then none else some s
  | _ => none

/-- The addresses on the page of a Python module. -/
def pypiCandidates (page : Value) : List String :=
  (pypiWays.filterMap (Value.under? · page)).filterMap address?

theorem present_eq (found : List (Outcome Value)) :
    present found = found.filterMap (·.toOption) := by
  refine filterMap_congr fun r _ => ?_
  cases r <;> rfl

theorem pypiAddresses_eq : pypiAddresses page = pypiWays.filterMap (Value.under? · page) := by
  have hget (key : String) (v : Value) := v.toOption_get key
  have htwo (a b : String) :
      (do (← page.get a).get b : Outcome Value).toOption = Value.under? [a, b] page :=
    page.toOption_get_bind a [b] (hget b)
  have hthree (a b c : String) :
      (do (← (← page.get a).get b).get c : Outcome Value).toOption =
        Value.under? [a, b, c] page :=
    page.toOption_get_bind a [b, c] fun v => v.toOption_get_bind b [c] (hget c)
  rw [pypiAddresses, present_eq, pypiWays]
  simp only [filterMap_cons, filterMap_nil, htwo, hthree]

/-- Texts and nulls are worth a look, up to the unknown ones. -/
theorem usable_eq_ok {found : List Value} (h : ∀ v ∈ found, v = .null ∨ ∃ s, v = .str s) :
    usable found = .ok (found.filterMap address?) := by
  induction found with
  | nil => rfl
  | cons v found ih =>
    rw [forall_mem_cons] at h
    obtain ⟨rfl | ⟨s, rfl⟩, h⟩ := h
    · rw [usable, ih h]
      rfl
    · simp only [usable, Value.text, ok_bind, ih h]
      by_cases hs : IsUnknown s
      · rw [if_pos (by simpa using capitals_eq_unknown.mpr hs), filterMap_cons_none]
        rw [address?, if_pos hs]
      · have haddress : address? (.str s) = some s := by rw [address?, if_neg hs]
        rw [if_neg (by simpa using mt capitals_eq_unknown.mp hs), filterMap_cons_some haddress]
        rfl

def Names (s host : String) : Prop := host.toList <:+: s.toList

instance (s host : String) : Decidable (Names s host) :=
  inferInstanceAs (Decidable (host.toList <:+: s.toList))

def IsFirstWith (P : String → Prop) (as : List String) (a : String) : Prop :=
  ∃ before after, as = before ++ a :: after ∧ P a ∧ ∀ b ∈ before, ¬P b

/-- The hosts that come next after the largest one. -/
def NamesLargeHost (s : String) : Prop :=
  Names s "bitbucket" ∨ Names s "gitlab" ∨ Names s "sourceforge"

/-- The best of several addresses: the first at the largest host, else the first at another large
host, else the first. -/
inductive IsChosen (as : List String) (a : String) : Prop
  | largest (h : IsFirstWith (Names · "github") as a)
  | large (hlargest : ∀ b ∈ as, ¬Names b "github") (h : IsFirstWith NamesLargeHost as a)
  | any (hlargest : ∀ b ∈ as, ¬Names b "github") (hlarge : ∀ b ∈ as, ¬NamesLargeHost b)
      (h : as.head? = some a)

theorem find?_eq_some_iff_isFirstWith {P : String → Prop} {p : String → Bool}
    (h : ∀ a ∈ as, p a = true ↔ P a) {a : String} : as.find? p = some a ↔ IsFirstWith P as a := by
  rw [find?_eq_some_iff_append]
  constructor
  · rintro ⟨ha, before, after, rfl, hbefore⟩
    refine ⟨before, after, rfl, (h a (by simp)).mp ha, fun b hb hP => ?_⟩
    have hpb := (h b (by simp [hb])).mpr hP
    simpa [hpb] using hbefore b hb
  · rintro ⟨before, after, rfl, ha, hbefore⟩
    refine ⟨(h a (by simp)).mpr ha, before, after, rfl, fun b hb => ?_⟩
    have hpb := mt (h b (by simp [hb])).mp (hbefore b hb)
    simpa using hpb

theorem find?_eq_none_iff_forall {P : String → Prop} {p : String → Bool}
    (h : ∀ a ∈ as, p a = true ↔ P a) : as.find? p = none ↔ ∀ a ∈ as, ¬P a := by
  rw [find?_eq_none]
  exact forall₂_congr fun a ha => not_congr (h a ha)

theorem names_iff {hosts : List String} {s : String} :
    names hosts s = true ↔ ∃ host ∈ hosts, Names s host := by
  simp only [names, any_eq_true, Text.hasInfix_iff, Names]

theorem best_eq_some_iff {a : String} : best as = some a ↔ IsChosen as a := by
  have hlargest (b : String) : names ["github"] b = true ↔ Names b "github" := by
    simp [names_iff]
  -- without the largest host, only the others are left to be named
  have hlarge (hnone : ∀ b ∈ as, ¬Names b "github") (b : String) (hb : b ∈ as) :
      names ["github", "bitbucket", "gitlab", "sourceforge"] b = true ↔ NamesLargeHost b := by
    simp [names_iff, NamesLargeHost, hnone b hb]
  rw [best, Option.or_eq_some_iff, Option.or_eq_some_iff,
    find?_eq_some_iff_isFirstWith fun b _ => hlargest b,
    find?_eq_none_iff_forall fun b _ => hlargest b]
  constructor
  · rintro (h | ⟨hnone, h⟩)
    · exact .largest h
    · rw [find?_eq_some_iff_isFirstWith (hlarge hnone),
        find?_eq_none_iff_forall (hlarge hnone)] at h
      obtain h | ⟨hothers, h⟩ := h
      · exact .large hnone h
      · exact .any hnone hothers h
  · intro h
    cases h with
    | largest h => exact .inl h
    | large hnone h =>
      exact .inr ⟨hnone, .inl ((find?_eq_some_iff_isFirstWith (hlarge hnone)).mpr h)⟩
    | any hnone hothers h =>
      exact .inr ⟨hnone, .inr ⟨(find?_eq_none_iff_forall (hlarge hnone)).mpr hothers, h⟩⟩

def HasTexts (page : Value) : Prop :=
  ∀ way ∈ pypiWays, ∀ v, Value.under? way page = some v → v = .null ∨ ∃ s, v = .str s

/-- The address is the best on the page, and not empty. -/
def Offers (page : Value) (a : String) : Prop := IsChosen (pypiCandidates page) a ∧ a ≠ ""

theorem pypiUri_eq_ok {page : Value} (h : HasTexts page) :
    ∃ uri, pypiUri page = .ok uri ∧ ∀ a, uri = some a ↔ Offers page a := by
  have husable : usable (pypiAddresses page) = .ok (pypiCandidates page) := by
    rw [pypiAddresses_eq, pypiCandidates, usable_eq_ok]
    intro v hv
    obtain ⟨way, hway, hv⟩ := mem_filterMap.mp hv
    exact h way hway v hv
  refine ⟨(best (pypiCandidates page)).filter (!·.isEmpty), ?_, fun a => ?_⟩
  · rw [pypiUri, husable, ok_bind]
    cases best (pypiCandidates page) with
    | none => rfl
    | some s => cases hs : s.isEmpty <;> simp [Option.filter, hs] <;> rfl
  · rw [Option.filter_eq_some_iff, best_eq_some_iff, Offers]
    simp

/-- The address of the page about a Python module. -/
def pypiPage (name : Value) : Value := .str ("https://pypi.org/pypi/" ++ name.display ++ "/json")

/-- A look-up sets the address of a Python module to the best one on its page, if that is not empty.
Whatever else comes back, or does not come back, nothing is changed. -/
theorem lookUp_pypi (hkind : m.kind = .pypi) {name : Value} (hname : m.name = some name)
    (htexts : ∀ page, Holds t.page page → HasTexts page) :
    (∀ page a, Holds t.page page → Offers page a →
      lookUp.run m t =
        ((Except.ok (), { m with vcsUri := some (.str a) }), asked t (pypiPage name))) ∧
    ((¬∃ page a, Holds t.page page ∧ Offers page a) →
      lookUp.run m t = ((ending t.page, m), asked t (pypiPage name))) := by
  have haddress : m.pageAddress = .ok (pypiPage name) := by
    rw [pageAddress, hkind, hname]
    rfl
  have hlearnt {page : Value} (hpage : Holds t.page page) {uri : Option String}
      (huri : pypiUri page = .ok uri) : m.learnt t.page = m.withAddress (uri.map .str) := by
    rw [learnt_of_holds (learn_pypi hkind) hpage, huri]
    rfl
  rw [lookUp_run (by rw [hkind]; rfl) haddress]
  constructor
  · intro page a hpage ha
    obtain ⟨uri, huri, hoffers⟩ := pypiUri_eq_ok (htexts page hpage)
    rw [hlearnt hpage huri, (hoffers a).mpr ha, hpage.ending_eq]
    rfl
  · intro hnone
    by_cases hpage : ∃ page, Holds t.page page
    · obtain ⟨page, hpage⟩ := hpage
      obtain ⟨uri, huri, hoffers⟩ := pypiUri_eq_ok (htexts page hpage)
      have huri_none : uri = none := by
        rw [Option.eq_none_iff_forall_ne_some]
        exact fun a ha => hnone ⟨page, a, hpage, (hoffers a).mp ha⟩
      rw [hlearnt hpage huri, huri_none]
      rfl
    · rw [learnt_of_not_holds (learn_pypi hkind) hpage]

/-- A page with a home page that is unknown, and addresses at two hosts. -/
def hostedPage : Value := .object [("info", .object [
  ("home_page", .str "UnKnown"),
  ("project_urls", .object [("Homepage", .str "https://gitlab.com/a/b")]),
  ("project_url", .str "https://github.com/a/b")])]

def namedModule : Module := { kind := .pypi, name := some (.str "b") }

/-- The largest host goes before one that stands earlier on the page; without a page nothing is
learnt. -/
theorem lookUp_pypi_hosted :
    (lookUp.run namedModule { page := .text (Json.render hostedPage) } =
      ((Except.ok (), { namedModule with vcsUri := some (.str "https://github.com/a/b") }),
        { page := .text (Json.render hostedPage)
          addresses := [.str "https://pypi.org/pypi/b/json"] })) ∧
    lookUp.run namedModule { page := .unavailable } =
      ((Except.ok (), namedModule),
        { page := .unavailable, addresses := [.str "https://pypi.org/pypi/b/json"] }) := by
  have hpage : Holds (.text (Json.render hostedPage)) hostedPage :=
    holds_render (by simp [hostedPage]) (by simp [hostedPage, Json.nestingLimit])
  have hcandidates : pypiCandidates hostedPage =
      ["https://gitlab.com/a/b", "https://github.com/a/b"] := by decide
  have hoffers : Offers hostedPage "https://github.com/a/b" := by
    have hlater : Names "https://github.com/a/b" "github" := by decide
    have hearlier : ¬Names "https://gitlab.com/a/b" "github" := by decide
    refine ⟨.largest ⟨["https://gitlab.com/a/b"], [], hcandidates, hlater, ?_⟩, by decide⟩
    rwa [forall_mem_singleton]
  constructor
  · refine (lookUp_pypi (m := namedModule) (t := { page := .text (Json.render hostedPage) })
      rfl rfl ?_).1 hostedPage "https://github.com/a/b" hpage hoffers
    intro page h
    rw [h.unique hpage]
    intro way hway v hv
    simp only [pypiWays, mem_cons, not_mem_nil, or_false] at hway
    obtain rfl | rfl | rfl := hway <;> exact .inr ⟨_, (Option.some.inj hv).symm⟩
  · refine (lookUp_pypi (m := namedModule) (t := { page := .unavailable }) rfl rfl ?_).2 ?_
    · rintro page ⟨body, h, -⟩
      cases h
    · rintro ⟨page, a, ⟨body, h, -⟩, -⟩
      cases h

end Module
end Publish
end RegexCorpus
