import RegexCorpus.Publish.Module

/-!
# Looking modules up in their registry

Some registries tell more about a module on request, among it addresses that may lead to its source.
The best of them becomes the module's place in version control. A request that fails leaves the
module as it was; only a wish to stop is passed on.
-/

namespace RegexCorpus.Publish.Module

/-- The text in capital letters, as far as they are ASCII. -/
def capitals (s : String) : String := String.ofList (s.toList.map Char.toUpper)

/-- The addresses on a page that are worth a look: texts other than "unknown". -/
def usable (found : List Value) : Outcome (List String) :=
  match found with
  | [] => .ok []
  | .null :: rest => usable rest
  | v :: rest => do
    let s ← v.text
    if capitals s == "UNKNOWN" then usable rest else return s :: (← usable rest)

/-- Results that were there; failures are passed over. -/
def present (found : List (Outcome Value)) : List Value :=
  found.filterMap fun r => match r with
    | .ok v => some v
    | .error _ => none

def names (hosts : List String) (s : String) : Bool :=
  hosts.any fun h => Text.hasInfix h.toList s.toList

/-- The best of several addresses: one at the largest host, else at another large one, else the
first. -/
def best (addresses : List String) : Option String :=
  (addresses.find? (names ["github"])).or
    ((addresses.find? (names ["github", "bitbucket", "gitlab", "sourceforge"])).or addresses.head?)

def pypiAddresses (page : Value) : List Value :=
  present [
    do (← page.get "info").get "home_page",
    do (← (← page.get "info").get "project_urls").get "Homepage",
    do (← page.get "info").get "project_url"]

/-- The address to set from the page of a Python module. -/
def pypiUri (page : Value) : Outcome (Option String) := do
  match best (← usable (pypiAddresses page)) with
  | some s => return if s.isEmpty then none else some s
  | none => return none

/-- The source addresses of the versions on a page, tried in order up to one that is not empty; each
one found replaces the module's own. -/
def tryVersions (versions : Value) : List Value → Edit Module Unit
  | [] => pure ()
  | version :: rest => do
    let found : Outcome Value := do ((← (← versions.item version).get "source").get "url")
    match found with
    | .ok uri =>
      modify ({ · with vcsUri := some uri })
      if uri.holds then pure () else tryVersions versions rest
    | .error _ => tryVersions versions rest

/-- The first address that is not empty, in the order of the keys. -/
def firstOf (page : Value) : List String → Outcome (Option Value)
  | [] => .ok none
  | key :: rest => do
    let uri ← page.get key
    if uri.holds then return some uri else firstOf page rest

/-- The keys under which a registry gives addresses, the likeliest first. -/
def addressKeys : Kind → List String
  | .nuget => ["projectUrl", "licenseUrl", "iconUrl", "releaseNotes"]
  | _ => ["source_code_uri", "homepage_uri", "bug_tracker_uri", "documentation_uri"]

def pageAddress (m : Module) : Outcome Value :=
  match m.kind with
  | .pypi => do return .str ("https://pypi.org/pypi/" ++ (← field m.name).display ++ "/json")
  | .packagist => do
    return .str ("https://repo.packagist.org/p/" ++ (← field m.name).display ++ ".json")
  | .rubygems => do
    return .str ("https://rubygems.org/api/v1/gems/" ++ (← field m.name).display ++ ".json")
  | _ => field m.registryUri

def learn (body : String) : Edit Module Unit := do
  let page ← (Json.parse body : Outcome Value)
  let m ← get
  match m.kind with
  | .pypi =>
    match ← (pypiUri page : Outcome _) with
    | some uri => modify ({ · with vcsUri := some (.str uri) })
    | none => pure ()
  | .packagist =>
    let name ← (field m.name : Outcome Value)
    let versions ← ((do (← page.get "packages").item name) : Outcome Value)
    tryVersions versions (← (versions.parts : Outcome _))
  | kind =>
    match ← (firstOf page (addressKeys kind) : Outcome _) with
    | some uri => modify ({ · with vcsUri := some uri })
    | none => pure ()

/-- The module with what its registry tells about it. -/
def lookUp : Ask Module Unit := do
  let m ← get
  match m.kind with
  | .cpan => throw .requirement
  | .pypi | .packagist | .nuget | .rubygems =>
    let address ← (m.pageAddress : Outcome Value)
    let visit : Ask Module Unit := do
      let body ← Ask.ofConsult (fetch address)
      Ask.ofEdit (learn body)
    tryCatch visit fun e =>
      match e with
      | .interrupted => throw e
      | _ => pure ()
  | _ => pure ()

end RegexCorpus.Publish.Module
