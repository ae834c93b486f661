import RegexCorpus.Build.Maven
import RegexCorpus.Build.Npm
import RegexCorpus.Build.Pypi
import RegexCorpus.CommandLine.Help
import RegexCorpus.Extract.Projects
import RegexCorpus.Extract.TypeScript
import RegexCorpus.Measure.Program
import RegexCorpus.Survey.Convert

/-!
# The programs

Each program has a form for its arguments and the work that it does with them. Some look for the
tools that they need before they look at their arguments.
-/

namespace RegexCorpus.CommandLine

/-- A program: what it does before it reads its arguments, its form, and its work. -/
structure Program where
  name : String
  form : Form
  start : Act Unit := pure ()
  work : Arguments → Act Unit

def needed (names : List String) (label about : String) : Setting :=
  { names, kind := .text, required := true, label, about }

def switch (name about : String) : Setting := { names := [name], kind := .flag, about }

def number (names : List String) (label about : String) : Setting :=
  { names, kind := .whole, label, about }

/-- How many cores a program may use. -/
def parallelism (names : List String) : Setting :=
  number names "PARALLELISM" "Maximum cores to use"

/-! ### Measuring -/

/-- The program that runs the analyser, which in turn has to be found, and the analyser itself. -/
def checkAnalyser : Act Unit := do
  match ← Act.which "wine" with
  | some path => Act.needPrograms [path]
  | none => throw .requirement
  Act.needFiles [Measure.analyser (← get).home]

/-- The analyses that arguments ask for. Paths are counted in an automaton, so the automaton has to be
asked for too. -/
def analysesOf (a : Arguments) : Outcome Measure.Analyses := do
  let found : Measure.Analyses :=
    { automaton := a.has "--analyze-automaton"
      simplePaths := a.has "--analyze-simple-paths"
      worstCase := a.has "--analyze-worst-case" }
  require (!found.simplePaths || found.automaton)
  if found.automaton || found.worstCase then return found else .error (.exit (.int 1))

/-- The metrics of the patterns of a file. -/
def measure : Program :=
  { name := "measure"
    start := checkAnalyser
    form := {
      program := "measure-regexes.py"
      about := "Measure some libLF.Regex's. Translates them to C#, then performs analyses using " ++
        "AutomataCLI"
      settings := [
        needed ["--regex-file"] "REGEXFILE" "In: File of libLF.Regex objects",
        switch "--set-static-to-all" ("Set static languages to all languages. Useful if using the " ++
          "LF dataset, all of whose regexes are static. Otherwise you should not need this"),
        switch "--analyze-automaton" "Analyze the regex features and automaton",
        switch "--analyze-simple-paths" ("Analyze the simple paths of the automaton. Requires " ++
          "--analyze-automaton. Stops counting after 5000 paths or 5 seconds"),
        switch "--analyze-worst-case" ("Analyze the predicted worst-case behavior of a regex in a " ++
          "Spencer-style regex engine according to Weideman et al."),
        { names := ["--lang"], kind := .texts, label := "LANGS"
          about := "In: Only consider and report about regexes actually used in these language(s)" },
        needed ["--out-file"] "OUTFILE"
          "Out: Where to save data for external analysis? Input order is not preserved.",
        parallelism ["--parallelism"]] }
    work := fun a => do
      let analyses ← (analysesOf a : Outcome _)
      Measure.measureFile {} (a.text "--regex-file") (a.has "--set-static-to-all") analyses
        (a.texts "--lang") (a.text "--out-file") }

/-! ### Extraction -/

def modesOf (a : Arguments) : List Extract.Mode :=
  (if a.has "--static" then [⟨.static, a.whole "--static-timeout"⟩] else []) ++
  (if a.has "--dynamic" then [⟨.dynamic, a.whole "--dynamic-timeout"⟩] else [])

/-- The patterns of the projects of a file. -/
def extract : Program :=
  { name := "extract"
    form := {
      program := "extract-regexes.py"
      about := "Extract regexes from a list of GitHubProject's. They should have tarballPath set. " ++
        "The extracted regexes are written to a file next to the tarball. Input order is not " ++
        "preserved. If a GHP times out, it is not emitted."
      settings := [
        needed ["--project-file"] "PROJECTFILE" "File containing NDJSON of GitHubProject's",
        switch "--static" "Statically extract regexes",
        number ["--static-timeout"] "STATICTIMEOUT" "Timeout (sec) for statically extracting regexes",
        switch "--dynamic" "Dynamically extract regexes",
        number ["--dynamic-timeout"] "DYNAMICTIMEOUT"
          "Timeout (sec) for dynamically extracting regexes",
        needed ["--out-file", "-o"] "OUTFILE" ("Where to write NDJSON results? These are updated " ++
          "GitHubProject's with the regexPath and/or dynRegexPath set"),
        parallelism ["--parallelism", "-p"]] }
    work := fun a => do
      if (modesOf a).isEmpty then throw (.exit (.int 1))
      Extract.searchAll (a.text "--project-file") (modesOf a) (a.text "--out-file") }

/-- The patterns in the source of a project. -/
def extractStatic : Program :=
  { name := "static"
    form := {
      program := "static-regex-extractor.py"
      about := "Statically extract regexes from a module's GitHub project. Only regexes in the " ++
        "primary language of the module will be extracted. cf. ghp-extract-regexes.py"
      settings := [
        needed ["--registry", "-r"] "REGISTRY"
          "What registry did the module associated with this libLF.GitHub project come from?",
        needed ["--src-path", "-t"] "SRCPATH" "GitHub project (tarball or root dir)",
        needed ["--out-file", "-o"] "OUTFILE" "Where to write RegexUsage objects as NDJSON?"] }
    work := fun a =>
      Extract.Static.extract (a.text "--src-path") (a.text "--registry") (a.text "--out-file") }

/-- The patterns that the tests of a project use. -/
def extractDynamic : Program :=
  { name := "dyn"
    form := {
      program := "dyn-regex-extractor.py"
      about := "Dynamically extract regexes from a libLF.GitHubProject. Only regexes in the " ++
        "primary language of the project will be extracted. Extraction is performed by " ++
        "instrumenting the project source, installing its dependencies, and then running the test " ++
        "suite of the project. cf. ghp-extract-regexes.py"
      settings := [
        needed ["--ghp-file", "-r"] "GHPFILE" "File containing NDJSON of a libLF.GitHubProject",
        needed ["--out-file", "-o"] "OUTFILE" "Where to write NDJSON of libLF.RegexUsage[]"] }
    work := fun a => Extract.Dynamic.extractProject (a.text "--ghp-file") (a.text "--out-file") }

/-- The patterns of a TypeScript file. -/
def extractTypeScript : Program :=
  { name := "ts"
    form := {
      program := "extract-ts-regexes.py"
      about := "Extract regexes from a TypeScript file"
      settings := []
      operand := some ("file_to_extract", "TypeScript file from which to extract regexes") }
    work := fun a => Extract.TypeScript.printReport (a.operands.headD "") }

/-! ### Surveys -/

def convertSurvey : Program :=
  { name := "wang"
    form := {
      program := "wang18-to-regex.py"
      about := "Convert Wang18's data to libLF.Regex format"
      settings := [
        needed ["--wang-csv-dir"] "WANGCSVDIR" "In: Wang18's res_regex_merge/ dir",
        switch "--filter-outliers" "Filter outlier files -- 99% and above",
        needed ["--out-file"] "OUTFILE" "Out: File of unique libLF.Regex objects"] }
    work := fun a =>
      Survey.convert (a.text "--wang-csv-dir") (a.has "--filter-outliers") (a.text "--out-file") }

/-! ### Builds -/

def inProject (name program about : String) (start : Act Unit) (work : String → Act Unit) : Program :=
  { name, start
    form := { program, about, settings := [needed ["--proj-dir"] "PROJDIR" "Project root dir"] }
    work := fun a => work (a.text "--proj-dir") }

def preparer (manager article : String) (work : String → Act Unit) : Program :=
  inProject (manager ++ "-preprocess") (manager ++ "-preprocess.py")
    ("Pre-processing for " ++ article ++ " " ++ manager ++ "-managed project") (pure ()) work

def builder (manager project : String) (start : Act Unit) (work : String → Act Unit) : Program :=
  inProject (manager ++ "-build") (manager ++ "-build-test.py")
    ("Build and run the test suite of " ++ project) start work

def programs : List Program := [
  measure, extract, extractStatic, extractDynamic, extractTypeScript, convertSurvey,
  preparer "npm" "an" Build.Npm.prepare, preparer "maven" "a" Act.changeFolder,
  preparer "pypi" "a" Act.changeFolder,
  builder "maven" ("a Java project that uses the gradlew or mvn build systems. If you intend to " ++
    "build Android projects, set the appropriate environment (ANDROID_HOME=...)")
    (Act.needPrograms ["mvn"]) Build.Maven.buildProject,
  builder "npm" "an npm-managed project" (Act.needPrograms ["npm"]) Build.Npm.buildProject,
  builder "pypi" ("a Python project that uses the distutils, tox, or nox distribution system.")
    (pure ()) Build.Pypi.buildProject]

/-- A program run on arguments. Asked for help, it prints it and ends. -/
def Program.run (p : Program) (args : List String) : Act Unit := do
  p.start
  match p.form.parse args with
  | .ok a => p.work a
  | .error f =>
    if f matches .exit (.int 0) then Act.print p.form.help
    throw f

def run (name : String) (args : List String) : Act Unit :=
  match programs.find? (·.name == name) with
  | some p => p.run args
  | none => throw misuse

end RegexCorpus.CommandLine
