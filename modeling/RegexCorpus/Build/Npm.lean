import RegexCorpus.Build.System

/-!
# Preparing and building npm projects

Linters would fail on instrumented code, so they are taken out of the scripts of a project, and told to
ignore its files. The project is then built and tested by its scripts.
-/

namespace RegexCorpus.Build.Npm

/-! ### Keeping linters out -/

/-- What tells a linter to ignore all files. -/
def ignoreAll : String :=
  "\n\n# Ignore all JS files\n# (added for dynamic instrumentation)\n**/*.js\n"

def addIgnoreAll (path : String) : Act Unit := Act.appendFile path ignoreAll

def withoutLinter (script : String) : String :=
  Text.replace "npm run lint;" "" (Text.replace "npm run lint && " "" script)

/-- A stage of a package description without its calls of a linter. -/
def cleanStage (package stage : Value) : Outcome Value := do
  let scripts ← package.get "scripts"
  if ← scripts.has stage then
    match ← scripts.item stage with
    | .str script => package.put (.str "scripts") (← scripts.put stage (.str (withoutLinter script)))
    | _ => throw .missingField
  else return package

/-- A package description whose stages call no linter. -/
def cleanStages (package : Value) (stages : List Value) : Outcome Value := do
  if ← package.has (.str "scripts") then stages.foldlM cleanStage package else return package

/-- The linter taken out of the stages of the project. A description that does not allow this stays
as it is. -/
def removeLinter (stages : List Value) : Act Unit :=
  tryCatch (do
    let package ← (Json.parse (← Act.readFile "package.json") : Outcome _)
    let cleaned ← (cleanStages package stages : Outcome _)
    Act.writeFile "package.json" (Json.render cleaned)) fun _ => pure ()

def excludeAll (config : Value) : Outcome Value := do
  let config ← if ← config.has (.str "excludeFiles") then pure config
    else config.put (.str "excludeFiles") (.list [])
  config.put (.str "excludeFiles") (← append (← config.get "excludeFiles") (.str "**/*.js"))

/-- The configuration of the style checker made to exclude all files. -/
def configureStyle : Act Unit := do
  let config ← if (← get).isFile ".jscsrc" then
      ((Json.parse (← Act.readFile ".jscsrc") : Outcome _) : Act Value)
    else pure (.dict [])
  Act.writeFile ".jscsrc" (Json.render (← (excludeAll config : Outcome _)))

/-- Every linter kept out of the project in the working directory. -/
def ignoreLinters : Act Unit := do
  removeLinter [.str "build", .str "test", .str "unit"]
  addIgnoreAll ".eslintignore"
  addIgnoreAll ".gitignore"
  configureStyle

/-- A project made ready for instrumentation. -/
def prepare (root : String) : Act Unit := do
  Act.changeFolder root
  ignoreLinters

/-! ### Building -/

def scriptsOf (package : Value) : Outcome Value := do
  if ← package.has (.str "scripts") then package.get "scripts"
  else if ← package.has (.str "script") then package.get "script"
  else return .null

/-- The scripts that build or test a project, and whether they test it. -/
def stages : List (String × Bool) := [("build", false), ("unit", true), ("test", true)]

/-- A stage run if the project has it; it fails when it is a test that fails. -/
def runStage (scripts : Value) (stage : String × Bool) : Act Bool := do
  if ← (scripts.has (.str stage.1) : Outcome _) then
    let reply ← Act.execute (.program ["npm", "run", stage.1])
    return stage.2 && reply.code != 0
  else return false

/-- A project built and tested; the program ends with 1 if a test failed, and with 0 otherwise. -/
def buildProject (root : String) : Act Unit := do
  Act.changeFolder root
  let _ ← runStages [["npm", "install"], ["npm", "install"]]
  let package ← (Json.parse (← Act.readFile "package.json") : Outcome _)
  let scripts ← (scriptsOf package : Outcome _)
  let failed ← if scripts.holds then stages.mapM (runStage scripts) else pure []
  throw (.exit (.int (if failed.any id then 1 else 0)))

end RegexCorpus.Build.Npm
