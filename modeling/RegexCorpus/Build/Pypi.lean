import RegexCorpus.Build.System

/-!
# Building Python projects

Every test tool that may work on a project is tried with every interpreter, since a tool that finds no
tests succeeds as well.
-/

namespace RegexCorpus.Build.Pypi

def interpreterNames : List String := ["python2", "python3"]

def interpreters : Act (List String) := do return (← interpreterNames.mapM Act.which).filterMap id

/-- The directory with a build file; a system without one builds anywhere. -/
def dirFor (buildFile : Option String) (root : String) : Act (Option String) :=
  match buildFile with
  | some file => dirOf file root
  | none => pure (some root)

def plain (buildFile : Option String) : System := { findDir := dirFor buildFile }

def runWith (interpreter rest : String) : Act Bool := do
  return (← runWords (Text.trim (interpreter ++ " " ++ rest))) == 0

/-- A tool that has to be installed; a missing one does nothing. -/
def tool (name program : String) (buildFile : Option String) : System :=
  { name
    findDir := dirFor buildFile
    tryBuild := fun root interpreter => do
      match ← Act.which program with
      | none => return false
      | some path =>
        enter (← dirFor buildFile root)
        runWith interpreter path }

/-- The project's own script. -/
def script : System :=
  { name := "setup.py"
    findDir := dirOf "setup.py"
    tryBuild := fun root interpreter => do
      enter (← dirOf "setup.py" root)
      runWith interpreter "setup.py test" }

/-- The test tools, cheap ones first. -/
def systems : List System := [
  script, tool "nose" "nosetests" none, tool "pytest" "pytest" none,
  tool "tox" "tox" (some "tox.ini"), tool "nox" "nox" (some "noxfile.py")]

/-- A project tested with every tool and every interpreter; the program then ends with 0. Without an
interpreter it ends with 1. -/
def buildProject (root : String) : Act Unit := do
  let found ← interpreters
  if found.isEmpty then throw (.exit (.int 1))
  let available ← supporting root systems
  available.forM fun s => found.forM fun interpreter => do
    let _ ← s.tryBuild root interpreter
  throw (.exit (.int 0))

end RegexCorpus.Build.Pypi
