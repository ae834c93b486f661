import RegexCorpus.Project.SourceFiles
import RegexCorpus.Record.Usage

/-!
# Patterns found by reading source

Each language has an extractor, a program that reports the patterns of one source file. The uses of
patterns in a project are those of its own source files, language after language and file after file.
-/

namespace RegexCorpus.Extract.Static

def directory (home : String) : String :=
  Path.joinAll home ["corpus", "corpus-creation", "static-analysis"]

/-- The extractors by language, from their directory on. -/
def extractors : List (String × List String) := [
  ("javascript", ["js", "extract-js-regexps.js"]),
  ("typescript", ["ts", "extract-ts-regexes.py"]),
  ("python", ["python", "extract-python-regexes-wrapper.pl"]),
  ("java", ["java", "regex-extractor", "release", "regex-extractor-1.0.jar"])]

def extractorOf (home language : String) : Outcome String :=
  match extractors.find? (·.1 == language) with
  | some (_, names) => .ok (Path.joinAll (directory home) names)
  | none => .error (.missingKey (.str language))

def neededLanguages : List (String × List String) := [
  ("crates.io", ["rust"]), ("cpan", ["perl"]), ("npm", ["javascript", "typescript"]),
  ("pypi", ["python"]), ("maven", ["java"]), ("rubygems", ["ruby"]), ("packagist", ["php"]),
  ("nuget", ["c#"]), ("godoc", ["go"])]

def extractorsFor (home registry : String) : Outcome (List String) :=
  match neededLanguages.find? (·.1 == registry) with
  | some (_, languages) => languages.mapM (extractorOf home)
  | none => .error (.missingKey (.str registry))

def checkExtractors (registry : String) : Act Unit := do
  Act.needFiles (← (extractorsFor (← get).home registry : Outcome _))

/-! ### One source file -/

/-- The command line that runs an extractor on a source file. -/
def commandFor (extractor name : String) : String :=
  let runner := if ".jar".toList.isSuffixOf extractor.toList then "java -jar" else ""
  runner ++ " '" ++ extractor ++ "' '" ++ name ++ "' 2>/dev/null"

/-- The use of a pattern that was found in a source file. -/
def useOf (name : String) (regex : Value) : Outcome Usage := do
  return .make (← regex.get "pattern") (← regex.get "flags") .null .null (.str name)
    (.str (Path.basename name))

/-- The uses in a source file that the output of an extractor reports. They stand in the file that
was searched, whatever file the report names. -/
def usesOf (name output : String) : Outcome (List Usage) := do
  match (FileReport.read (.str output)).run {} with
  | (.error f, _) => .error f
  | (.ok _, report) =>
    (← (← field report.regexes).parts).mapM (useOf name)

/-- The uses in a source file; none when the extractor fails or its output is no report. -/
def usesIn (extractor name : String) : Act (Option (List Usage)) :=
  Act.orElse (do
      let output ← Act.executeChecked (commandFor extractor name)
      return (usesOf name output).toOption)
    (fun f => !(f matches .interrupted)) (fun _ => pure none)

/-! ### A project -/

def linesFor (registry : Value) (uses : List Usage) : Outcome (List String) :=
  uses.mapM fun u => { u with regexes := some registry }.toLine

/-- Lines put at the end of a file. -/
def appendLines (out : String) (lines : List String) : Act Unit :=
  lines.forM fun line => Act.appendFile out (line ++ "\n")

/-- The uses in a source file of a language put at the end of a file. -/
def extractFile (registry out language : String) (file : SourceFile) : Act Unit := do
  let extractor ← (extractorOf (← get).home language : Outcome _)
  let uses := (← usesIn extractor file.name).getD []
  appendLines out (← (linesFor (.str registry) uses : Outcome _))

/-- The uses in the source files of a table written to a file. -/
def extractTable (registry out : String) (table : SourceTable) : Act Unit := do
  Act.writeFile out ""
  table.forM fun (language, files) => files.forM (extractFile registry out language)

/-- The uses in a project, which is a directory or an archive, written to a file. What was unpacked
for it is removed at the end. -/
def extractProject (source registry out : String) : Act Unit := do
  if (← get).isFolder source then
    extractTable registry out (← Project.ownSourceFiles source registry)
  else
    let dir ← Act.unpack source
    extractTable registry out (← Project.ownSourceFiles dir registry)
    Act.removeFolder dir

/-- The uses in a project written to a file, once the extractors have been found. -/
def extract (source registry out : String) : Act Unit := do
  checkExtractors registry
  extractProject source registry out

end RegexCorpus.Extract.Static
