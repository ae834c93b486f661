import RegexCorpus.Host.Files
import RegexCorpus.Project.Vendored
import RegexCorpus.Registry

/-!
# The source files of a project

A counter of lines of code reports on the files of a directory. From its report come the source files
of each language, and from those the files of the languages of a registry that are the project's own.
-/

namespace RegexCorpus

/-- A source file and its lines of code. -/
structure SourceFile where
  name : String
  code : Value
  deriving Repr

/-- Source files by language. -/
abbrev SourceTable := List (String × List SourceFile)

namespace SourceFile

def toValue (f : SourceFile) : Value := .object [("name", .str f.name), ("LOC", f.code)]

end SourceFile

namespace SourceTable

def toValue (t : SourceTable) : Value :=
  .object (t.map fun e => (e.1, .list (e.2.map SourceFile.toValue)))

def empty : SourceTable := Registry.allLanguages.map fun l => (l, [])

def add (language : String) (f : SourceFile) (t : SourceTable) : SourceTable :=
  t.map fun e => if e.1 == language then (e.1, e.2 ++ [f]) else e

def addEntry (t : SourceTable) (name : String) (entry : Value) : Outcome SourceTable := do
  let code ← entry.get "code"
  let language ← (← entry.get "language").text
  return t.add (Text.lower language) { name, code }

def ofReport (isRegular : String → Bool) (report : Value) : Outcome SourceTable := do
  (← report.parts).foldlM (fun t key => match key with
    | .str name => do
      if isRegular name then t.addEntry name (← report.get name) else return t
    | _ => .error .wrongKind) empty

def filesOf (t : SourceTable) (language : String) : Outcome (List SourceFile) :=
  match t.find? (·.1 == language) with
  | some (_, files) => .ok files
  | none => .error (.missingKey (.str language))

/-- The table without the files of third parties. -/
def ownFiles (t : SourceTable) : Outcome SourceTable :=
  t.mapM fun (language, files) => do
    let own ← files.filterM fun f => do return !(← Project.looksVendored (.str f.name))
    return (language, own)

/-- The lines of code of each language can be added up and reported. -/
def addsUp (t : SourceTable) : Outcome Unit := ((Project.report t.toValue).run []).1

end SourceTable

def Host.isRegular (h : Host) (path : String) : Bool := h.isFile path && !h.isLink path

namespace Project

/-- A report with names that are given from the directory on, if that is given from the root. -/
def placed (dir : String) : Value → Value
  | .dict es =>
    if FileTree.isAbsolute dir then
      .dict (es.map fun e => match e with
        | (.str name, v) => (.str (Path.join dir name), v)
        | e => e)
    else .dict es
  | v => v

/-- The report on a directory, which keeps the limits of JSON texts. -/
def lineReport (dir : String) : Act Value := do
  let h ← get
  if h.lineCode != 0 then throw .checkedCommandFailed
  (Json.checkLimits Json.nestingLimit h.lineReport : Outcome Unit)
  return placed dir h.lineReport

/-- The source files under a directory, by language; none when the report cannot be had. -/
def summary (dir : String) : Act SourceTable :=
  Act.orElse (do
      let report ← lineReport dir
      let h ← get
      (SourceTable.ofReport h.isRegular report : Outcome _))
    (· matches .checkedCommandFailed) (fun _ => pure SourceTable.empty)

/-- The source files under a directory in the languages of a registry. -/
def allSourceFiles (dir registry : String) : Act SourceTable := do
  (require (Registry.isKnown (.str (Text.lower registry))) : Outcome Unit)
  let table ← summary dir
  let languages ← (Registry.languagesOf registry : Outcome _)
  (languages.mapM (fun l => do return (l, ← table.filesOf l)) : Outcome SourceTable)

/-- The source files of a project in the languages of a registry, without those of third parties. The
lines of code are reported before and after. -/
def ownSourceFiles (dir registry : String) : Act SourceTable := do
  let table ← allSourceFiles dir registry
  (table.addsUp : Outcome Unit)
  let own ← (table.ownFiles : Outcome SourceTable)
  (own.addsUp : Outcome Unit)
  return own

end Project
end RegexCorpus
