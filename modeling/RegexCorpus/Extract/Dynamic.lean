import RegexCorpus.Build.System
import RegexCorpus.Extract.PatternLog
import RegexCorpus.Extract.ProjectDir
import RegexCorpus.Extract.Static
import RegexCorpus.Project.File

/-!
# Patterns found by running tests

The source files of a project are instrumented, so that a run of its tests logs the patterns that are
used. Each registry has its own programs for this.
-/

namespace RegexCorpus.Extract.Dynamic

/-! ### Plug-ins of registries -/

/-- The programs that serve a registry: one that prepares a project, one for each language that
instruments a source file, and one that runs the tests of a project. -/
structure Plugins where
  preparer : String
  instrumentors : List (String × List String)
  runner : String

def directory (home : String) : String :=
  Path.joinAll home ["corpus", "corpus-generation", "program-instrumentation"]

def pluginsFor (home registry language instrumentor : String) (words : List String) : Plugins :=
  let dir := directory home
  { preparer := Path.joinAll dir ["preprocess", registry ++ "-preprocess.py"]
    instrumentors := [(language, words ++ [Path.joinAll dir ["instrument", instrumentor]])]
    runner := Path.joinAll dir ["run", registry ++ "-build-test.py"] }

/-- The plug-ins of all registries. -/
def allPlugins (home : String) : List (String × Plugins) := [
  ("npm", pluginsFor home "npm" "javascript" "npm-instrument-js.js" []),
  ("maven", pluginsFor home "maven" "java" "maven-instrument-java.jar" ["java", "-jar"]),
  ("pypi", pluginsFor home "pypi" "python" "python-instrument-regexps-wrapper.pl" [])]

def plugins (home : String) (registry : Value) : Outcome (String × Plugins) := do
  let key ← registry.toKey
  match (allPlugins home).find? fun e => key.same (.str e.1) with
  | some found => return found
  | none => .error (.missingKey key)

def Plugins.files (p : Plugins) : List String :=
  p.preparer :: p.instrumentors.filterMap (·.2.getLast?) ++ [p.runner]

def checkPlugins (registry : Value) : Act Unit := do
  Act.needPrograms ["cloc"]
  let (_, p) ← (plugins (← get).home registry : Outcome _)
  Act.needFiles p.files

/-! ### Instrumentation -/

/-- A source file instrumented: what the program prints goes to a file that is emptied before, and from
there to the place of the source file if the program succeeds. -/
def instrumentFile (words : List String) (log output : String) (file : SourceFile) : Act Unit := do
  Act.writeFile output ""
  let reply ← Act.execute (.program (words ++ [file.name, log]))
  Act.writeFile output reply.output
  if reply.code == 0 then Act.copyFile output file.name

def instrumentFiles (instrumentors : List (String × List String)) (log output : String)
    (table : SourceTable) : Act Unit :=
  table.forM fun (language, files) =>
    match instrumentors.find? (·.1 == language) with
    | some (_, words) => files.forM (instrumentFile words log output)
    | none => pure ()

/-- A project that is ready for its tests. -/
structure Instrumented where
  registry : String
  plugins : Plugins
  /-- Where its archive was unpacked. -/
  root : String
  log : String

/-- The archive of a project unpacked, prepared and instrumented. -/
def instrumentProject (p : Project) : Act Instrumented := do
  let h ← get
  let log := h.temporary
  Act.writeFile log ""
  let root ← match p.tarballPath with
    | some (.str path) => Act.unpack path
    | _ => throw .wrongKind
  let (registry, plugins) ← (do plugins h.home (← field p.registry) : Outcome _)
  let dir ← projectDir root
  let _ ← Act.execute (.program [plugins.preparer, "--proj-dir", dir])
  let files ← Project.ownSourceFiles root registry
  let output := log ++ ".instrumented"
  Act.writeFile output ""
  instrumentFiles plugins.instrumentors log output files
  return { registry, plugins, root, log }

/-! ### Collection -/

/-- The tests of a project run, which leaves the log; whether they passed. -/
def runTests (p : Instrumented) : Act Bool := do
  let dir ← projectDir p.root
  let code ← Build.runWords (p.plugins.runner ++ " --proj-dir " ++ dir)
  let h ← get
  let (way, _) ← Act.writable p.log
  set (h.put way h.testLog)
  return code == 0

/-- The uses that the tests of a project log; none when they fail and have to pass. All traces of the
work are removed. -/
def collect (needPass : Bool) (p : Instrumented) : Act (List Usage) := do
  let passed ← runTests p
  let uses ← if passed || !needPass then PatternLog.load p.log else pure []
  Act.removeFolder p.root
  Act.removeFile p.log
  return uses

/-- The uses found for a registry written to a file. -/
def writeUses (registry out : String) (uses : List Usage) : Act Unit := do
  Act.writeFile out ""
  Static.appendLines out (← (Static.linesFor (.str registry) uses : Outcome _))

/-- The tests of an instrumented project run, and the uses that they log written to a file. -/
def collectTo (needPass : Bool) (out : String) (p : Instrumented) : Act Unit := do
  writeUses p.registry out (← collect needPass p)

/-- The project of a file, which has to hold exactly one. -/
def loadSole (path : String) : Act Project := do
  match ← Project.load path with
  | [p] => return p
  | _ => throw .requirement

/-- The uses that the tests of the project of a file log, written to a file. -/
def extractProject (path out : String) : Act Unit := do
  let p ← loadSole path
  checkPlugins (p.registry.getD .null)
  collectTo false out (← instrumentProject p)

end RegexCorpus.Extract.Dynamic
