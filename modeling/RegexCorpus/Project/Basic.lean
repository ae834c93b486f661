import RegexCorpus.Record.Edit

/-!
# Projects

* `Project` — a project under version control, with the modules that point to it, the tarball of its
  source, and the files of the patterns found in it.
* `StarredProject` — just the name of a project and its stars.
-/

namespace RegexCorpus

def unknownStars : Value := .int (-1)

def noTarballPath : Value := .str "NoTarballPath"

/-- The pattern file of a project that was not searched. -/
def noRegexPath : Value := .str "NoRegexPath"

/-- A project, with the modules that it makes and the files of patterns found in it. -/
structure Project where
  initialized : Value := .bool false
  type : Value := .str "GitHubProject"
  owner : Option Value := none
  name : Option Value := none
  registry : Option Value := none
  modules : Option Value := none
  nStars : Option Value := none
  tarballPath : Option Value := none
  /-- The file of the patterns found by reading the source. -/
  regexPath : Option Value := none
  /-- The file of the patterns found by running the project's tests. -/
  dynRegexPath : Option Value := none
  historyFile : Option Value := none
  deriving Repr, Inhabited

/-- A project of which only the name and the stars are known. -/
structure StarredProject where
  initialized : Value := .bool false
  type : Value := .str "SimpleGitHubProjectNameAndStars"
  name : Option Value := none
  nStars : Option Value := none
  deriving Repr, Inhabited

namespace Project

def typeName : String := "GitHubProject"

/-- A project from its parts; null stands for a part that is not given. A project with a history has
it beside its tarball. -/
def make (owner name registry modules nStars tarballPath regexPath dynRegexPath historyFile : Value) :
    Project :=
  { initialized := .bool true
    owner := some owner
    name := some name
    registry := some registry
    modules := some modules
    nStars := some (given nStars unknownStars)
    tarballPath := some (given tarballPath noTarballPath)
    regexPath := some (given regexPath noRegexPath)
    dynRegexPath := some (given dynRegexPath noRegexPath)
    historyFile := match historyFile with
      | .null => some (.str "")
      | _ => some tarballPath }

def fields : DataFields Project := [
  ⟨"type", none, (·.type), fun v p => { p with type := v }⟩,
  ⟨"owner", none, (·.owner), fun v p => { p with owner := v }⟩,
  ⟨"name", none, (·.name), fun v p => { p with name := v }⟩,
  ⟨"registry", none, (·.registry), fun v p => { p with registry := v }⟩,
  ⟨"modules", none, (·.modules), fun v p => { p with modules := v }⟩,
  ⟨"nStars", none, (·.nStars), fun v p => { p with nStars := v }⟩,
  ⟨"tarballPath", none, (·.tarballPath), fun v p => { p with tarballPath := v }⟩,
  ⟨"regexPath", some noRegexPath, (·.regexPath), fun v p => { p with regexPath := v }⟩,
  ⟨"dynRegexPath", some noRegexPath, (·.dynRegexPath), fun v p => { p with dynRegexPath := v }⟩,
  ⟨"projectHistoryFile", some (.str ""), (·.historyFile), fun v p => { p with historyFile := v }⟩]

def read (line : Value) (room : Nat := Json.nestingLimit) : Edit Project Unit := do
  modify ({ · with initialized := .bool true })
  let obj ← (Json.ofLine line room : Outcome Value)
  (require ((← (obj.get "type" : Outcome Value)).same (.str typeName)) : Outcome Unit)
  fields.readFrom obj

def ofLine (line : String) : Outcome Project := (read (.str line)).made {}

def toLine (p : Project) (room : Nat := Json.nestingLimit) : Outcome String := do
  require p.initialized.holds
  Json.toLine (← members (fields.entries p)) room

def moduleCount (p : Project) : Outcome Nat := do (← field p.modules).size

end Project

namespace StarredProject

def typeName : String := "SimpleGitHubProjectNameAndStars"

def make (name nStars : Value) : StarredProject := { initialized := .bool true, name, nStars }

def fields : DataFields StarredProject := [
  ⟨"type", none, (·.type), fun v r => { r with type := v }⟩,
  ⟨"name", none, (·.name), fun v r => { r with name := v }⟩,
  ⟨"nStars", none, (·.nStars), fun v r => { r with nStars := v }⟩]

def read (line : Value) (room : Nat := Json.nestingLimit) : Edit StarredProject Unit := do
  modify ({ · with initialized := .bool true })
  let obj ← (Json.ofLine line room : Outcome Value)
  (require ((← (obj.get "type" : Outcome Value)).same (.str typeName)) : Outcome Unit)
  fields.readFrom obj

def toLine (p : StarredProject) (room : Nat := Json.nestingLimit) : Outcome String := do
  require p.initialized.holds
  Json.toLine (← members (fields.entries p)) room

/-- The parts of the full name, between slashes. -/
def nameParts (p : StarredProject) : Outcome (List String) := do
  return Text.splitOn '/' (← (← field p.name).text)

def owner (p : StarredProject) : Outcome String := do Value.itemAt (← p.nameParts) 0

/-- The project's own name: the second part of the full name. -/
def ownName (p : StarredProject) : Outcome String := do Value.itemAt (← p.nameParts) 1

/-- The full record of the project, as far as it is known. -/
def toProject (p : StarredProject) : Outcome Project := do
  let owner ← p.owner
  let name ← p.ownName
  let nStars ← field p.nStars
  return .make (.str owner) (.str name) (.str "maven") (.strs ["UNKNOWN"]) nStars noTarballPath
    noRegexPath noRegexPath .null

end StarredProject
end RegexCorpus
