import RegexCorpus.Record.Edit
import RegexCorpus.Registry

/-!
# Modules of a registry

A `Module` says where a published module is found: in the registry, and in version control. Each
registry adds fields of its own; `Kind` names them. Looking a module up in its registry may find its
place in version control: see `Module.lookUp`.
-/

namespace RegexCorpus.Publish

/-- The registry that a module record is for; `any` records carry the common fields only. -/
inductive Kind where
  | any
  | cpan
  | crates
  | npm
  | pypi
  | packagist
  | godoc
  | nuget
  | rubygems
  deriving DecidableEq, Repr

namespace Kind

def name : Kind → String
  | any => "ModuleInfo"
  | cpan => "CpanInfo"
  | crates => "CratesInfo"
  | npm => "NpmInfo"
  | pypi => "PypiInfo"
  | packagist => "PackagistInfo"
  | godoc => "GodocInfo"
  | nuget => "NugetInfo"
  | rubygems => "RubygemsInfo"

def registry : Kind → String
  | any => ""
  | cpan => "cpan"
  | crates => "crates.io"
  | npm => "npm"
  | pypi => "pypi"
  | packagist => "packagist"
  | godoc => "godoc"
  | nuget => "nuget"
  | rubygems => "rubygems"

def fields : Kind → List String
  | cpan => ["category", "author", "size", "publishDate"]
  | crates => ["recentDownloads", "documentationUri", "keywords", "categories", "createDate",
      "mostRecentPublishDate"]
  | npm => ["documentationUri", "mostRecentPublishDate"]
  | _ => []

def specific : List Kind := [cpan, crates, npm, pypi, packagist, godoc, nuget, rubygems]

def ofName? (v : Value) : Option Kind := specific.find? fun k => v.same (.str k.name)

end Kind

/-- The version of a module whose registry gives none. -/
def noVersion : Value := .str "NoVersion"

def noRegistryUri : Value := .str "NoRegistryUri"

/-- The version control address of a module that has none. -/
def noVcsUri : Value := .str "NoVCSUri"

def noTarball : Value := .str "NoTarballPath"

/-- The stars, or the popularity, of a module for which nobody knows. -/
def unknownCount : Value := .int (-1)

/-- A module of a registry. A field that has not been set is missing. -/
structure Module where
  kind : Kind
  initialized : Value := .bool false
  type : Value := .str kind.name
  registry : Option Value := none
  name : Option Value := none
  version : Option Value := none
  popularity : Option Value := none
  registryUri : Option Value := none
  vcsUri : Option Value := none
  gitHubStars : Option Value := none
  gitHubStarsFetchTime : Option Value := none
  tarballPath : Option Value := none
  /-- The fields of the kind that have been set. -/
  extras : Members := []
  deriving Repr

/-- The common parts of a module; null stands for a part that is not given. -/
structure Module.Parts where
  registry : Value
  name : Value
  version : Value := .null
  popularity : Value := .null
  registryUri : Value := .null
  vcsUri : Value := .null
  gitHubStars : Value := .null
  gitHubStarsFetchTime : Value := .null
  tarballPath : Value := .null

namespace Module

/-- The parts as they are filled in, with the defaults of those that are not given. -/
def Parts.values (p : Parts) : List Value := [
  p.registry, p.name, given p.version noVersion, given p.popularity unknownCount,
  given p.registryUri noRegistryUri, given p.vcsUri noVcsUri, given p.gitHubStars unknownCount,
  given p.gitHubStarsFetchTime unknownCount, given p.tarballPath noTarball]

/-- The fields that the modules of all registries have. -/
def commonFields : DataFields Module := [
  ⟨"registry", none, (·.registry), fun v m => { m with registry := v }⟩,
  ⟨"name", none, (·.name), fun v m => { m with name := v }⟩,
  ⟨"version", none, (·.version), fun v m => { m with version := v }⟩,
  ⟨"popularity", none, (·.popularity), fun v m => { m with popularity := v }⟩,
  ⟨"registryUri", none, (·.registryUri), fun v m => { m with registryUri := v }⟩,
  ⟨"vcsUri", none, (·.vcsUri), fun v m => { m with vcsUri := v }⟩,
  ⟨"gitHubStars", some unknownCount, (·.gitHubStars), fun v m => { m with gitHubStars := v }⟩,
  ⟨"gitHubStarsFetchTime", some unknownCount, (·.gitHubStarsFetchTime),
    fun v m => { m with gitHubStarsFetchTime := v }⟩,
  ⟨"tarballPath", some noTarball, (·.tarballPath), fun v m => { m with tarballPath := v }⟩]

/-- A field of the kind, if it has been set. -/
def extra (key : String) (m : Module) : Option Value := (m.extras.find? (·.1 == key)).map (·.2)

def setExtra (key : String) (v : Value) (m : Module) : Module :=
  { m with extras := m.extras.filter (·.1 != key) ++ [(key, v)] }

/-- The fields of a kind. -/
def extraFields (kind : Kind) : DataFields Module :=
  kind.fields.map fun key => ⟨key, none, extra key, setExtra key⟩

def markField : DataField Module :=
  ⟨"initialized", none, (·.initialized), fun v m => { m with initialized := v }⟩

def typeField : DataField Module := ⟨"type", none, (·.type), fun v m => { m with type := v }⟩

def fields (kind : Kind) : DataFields Module := commonFields ++ extraFields kind

/-- The common parts filled in. The registry has to be a known one, and one of the two addresses
given. -/
def fill (p : Parts) : Edit Module Unit := do
  modify ({ · with initialized := .bool true })
  let registry ← (p.registry.toKey : Outcome Atom)
  (require (Registry.isKnown registry) : Outcome Unit)
  modify (commonFields.setAll p.values)
  match p.registryUri, p.vcsUri with
  | .null, .null => throw (.badValue "Must provide at least one uri")
  | _, _ => pure ()

/-- A module of a registry filled in: common parts, then the fields of its kind. -/
def fillAll (p : Parts) (extras : List Value) : Edit Module Unit := do
  fill p
  modify fun m => (extraFields m.kind).setAll extras m

/-- A module filled from a line, which has to name the type of the record unless any will do. -/
def read (line : Value) (room : Nat := Json.nestingLimit) : Edit Module Unit := do
  modify ({ · with initialized := .bool true })
  let obj ← (Json.ofLine line room : Outcome Value)
  commonFields.readFrom obj
  let m ← get
  if m.kind != .any then
    (require ((← (obj.get "type" : Outcome Value)).same m.type) : Outcome Unit)
    (extraFields m.kind).readFrom obj

/-- The fields on a line. -/
def lineFields (kind : Kind) : DataFields Module :=
  fields kind ++ if kind == .any then [] else [typeField]

def toLine (m : Module) (room : Nat := Json.nestingLimit) : Outcome String := do
  require m.initialized.holds
  Json.toLine (← members ((lineFields m.kind).entries m)) room

def ofLine (line : Value) (room : Nat := Json.nestingLimit) : Outcome Module :=
  byType Kind.ofName? (fun kind => (read line room).made { kind }) line room

/-- The address of the module's package. -/
def artifact (m : Module) : Outcome Value := field m.registryUri

end Module
end RegexCorpus.Publish
