import RegexCorpus.Path
import RegexCorpus.Record.Edit
import RegexCorpus.Text.LowerCase

/-!
# Source files of a project, without those of third parties

A table of source files lists, for each language, the files with their names and lines of code. Files
under a directory for third-party code are left out of it.
-/

namespace RegexCorpus.Project

/-- The usual names of directories with the code of others, in small letters. -/
def thirdPartyNames : List String := [
  "third-party", "third_party", "thirdparty", "3rd-party", "3rd_party", "3rdparty", "vendor",
  "vendors", "extern", "external", "node_modules"]

/-- The components of a path given as data. -/
def componentsOf : Value → Outcome (List String)
  | .str s => match Path.components? s with
    | some cs => .ok cs
    | none => .error .endless
  | v => if v.holds then .error .wrongKind else .ok []

/-- The file lies under a directory for third-party code; its own name does not count. -/
def looksVendored (path : Value) : Outcome Bool := do
  let cs ← componentsOf path
  if cs.isEmpty then .error .outOfRange
  else return cs.dropLast.any fun c => thirdPartyNames.contains (Text.lower c)

/-- The files that do not look like those of third parties. -/
def ownFiles : List Value → Outcome (List Value)
  | [] => .ok []
  | file :: rest => do
    let vendored ← looksVendored (← file.get "name")
    let others ← ownFiles rest
    return if vendored then others else file :: others

/-- The lists of the given entries replaced by those of the project's own files, one language after
the other. The result is the last list as it was before. -/
def keepOwn : Entries → Option Value → Edit Value Value
  | [], last => (match last with
    | some v => .ok v
    | none => .error .unassigned : Outcome Value)
  | (language, files) :: rest, _ => do
    let own ← ((do ownFiles (← files.parts)) : Outcome _)
    let table ← ((← get).put (.atom language) (.list own) : Outcome Value)
    set table
    keepOwn rest (some files)

/-- Third-party files taken out of a table of source files. -/
def removeVendored : Edit Value Value := do keepOwn (← ((← get).entries : Outcome _)) none

/-- A line of the report: language, number of files, lines of code, each at the right of its
column. -/
def reportLine (language files code : String) : String :=
  Text.padLeft 20 language ++ " " ++ Text.padLeft 10 files ++ " " ++ Text.padLeft 15 code

def codeLines (files : List Value) : Outcome Value :=
  files.foldlM (fun sum f => do sum.add (← f.get "LOC")) (.int 0)

/-- The lines of code of some files in all, as they stand in a report. A number of too many digits
cannot be written. -/
def codeText (files : List Value) : Outcome String := do
  let code ← codeLines files
  Json.checkLimits 0 code
  return code.display

def reportLanguages (table : Value) : List Value → Edit (List String) Unit
  | [] => pure ()
  | language :: rest => do
    let files ← ((do (← table.item language).parts) : Outcome _)
    let code ← (codeText files : Outcome String)
    modify (· ++ [reportLine language.display (Text.ofNat files.length) code])
    reportLanguages table rest

/-- The report of a table of source files, with a head of two lines. -/
def report (table : Value) : Edit (List String) Unit := do
  modify (· ++ [reportLine "Language" "Num files" "Net LOC", reportLine "-----" "-----" "-----"])
  reportLanguages table (← (table.parts : Outcome _))

end RegexCorpus.Project
