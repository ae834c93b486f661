import RegexCorpus.Extract.Dynamic
import RegexCorpus.Schedule.Pool

/-!
# Extraction for many projects

The projects of a file are searched for patterns, by reading their source, by running their tests, or
both. Each project is written back with the names of the files that hold its patterns, as soon as a
pool has searched it. An extraction that fails leaves its file name all the same; the project is
written in any case but one, that it has no archive to name the files after.
-/

namespace RegexCorpus.Extract

/-- A way to find the patterns of a project. -/
inductive Method where
  | static
  | dynamic
  deriving DecidableEq, Repr

/-- A method, and the seconds that it may take; a number that is not positive sets no bound. -/
structure Mode where
  method : Method
  timeout : Value

namespace Method

def ofName (v : Value) : Outcome Method :=
  match v with
  | .str "STATIC" => .ok static
  | .str "DYNAMIC" => .ok dynamic
  | _ => .error .requirement

/-- The end of the names of files that hold the patterns found by the method. -/
def ending : Method → String
  | static => "-DR-static-regexes.json"
  | dynamic => "-DR-dynamic-regexes.json"

def fileFor (m : Method) (archive : String) : String := Path.stem archive ++ m.ending

def record (m : Method) (file : String) (p : Project) : Project :=
  match m with
  | static => { p with regexPath := some (.str file) }
  | dynamic => { p with dynRegexPath := some (.str file) }

end Method

def needText (v : Option Value) : Outcome String :=
  match v with
  | some (.str s) => .ok s
  | _ => .error .wrongKind

def commandWords (h : Host) (m : Method) (file : String) (p : Project) : Outcome (List String) :=
  let program (name : String) : String := Path.joinAll h.home ["bin", name]
  match m with
  | .static => do
    return [program "static-regex-extractor.py", "--out-file", file, "--registry",
      ← needText p.registry, "--src-path", ← needText p.tarballPath]
  | .dynamic => do
    let _ ← p.toLine
    return [program "dyn-regex-extractor.py", "--ghp-file", h.temporary, "--out-file", file]

def extractTo (mode : Mode) (file : String) (p : Project) : Act Unit := do
  let words ← (commandWords (← get) mode.method file p : Outcome _)
  let _ ← (mode.timeout.isPositive : Outcome Bool)
  let reply ← Act.execute (.program words)
  if reply.code != 0 then throw (.commandFailed "")

/-- A project searched in one mode. What goes wrong in the extraction is passed over. -/
def searchIn (p : Project) (mode : Mode) : Act Project := do
  let archive ← (needText p.tarballPath : Outcome String)
  let file := mode.method.fileFor archive
  tryCatch (extractTo mode file p) fun _ => pure ()
  return mode.method.record file p

def search (modes : List Mode) (p : Project) : Act Project := modes.foldlM searchIn p

/-- The task of searching a project. The record that comes of it has to have a line. -/
def searchTask (modes : List Mode) (p : Project) : Act Project := do
  let found ← search modes p
  let _ ← (found.toLine : Outcome String)
  return found

/-- The line of a project put at the end of a file; nothing when its task failed. -/
def emit (out : String) : Except Fault Project → Act Unit
  | .ok p => do Act.appendFile out ((← (p.toLine : Outcome String)) ++ "\n")
  | .error _ => pure ()

/-- Projects searched in all modes by a pool and written to a new file as they are completed. -/
def searchProjects (modes : List Mode) (out : String) (order : List Nat) (projects : List Project) :
    Act Unit := do
  Act.writeFile out ""
  let _ ← (Schedule.Plan.unlimited order).forEach (projects.map (searchTask modes)) (emit out)

/-- The projects of a file searched in all modes and written to another file. -/
def searchAll (path : String) (modes : List Mode) (out : String) (order : List Nat := []) :
    Act Unit := do
  searchProjects modes out order (← Project.load path)

end RegexCorpus.Extract
