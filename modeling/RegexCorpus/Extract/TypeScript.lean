import RegexCorpus.Extract.Static

/-!
# Patterns of TypeScript files

A TypeScript file is made into a JavaScript file, and the patterns of that one are reported as its
own. When this fails, the report says that the file could not be parsed.
-/

namespace RegexCorpus.Extract.TypeScript

/-- The program that makes JavaScript of TypeScript. -/
def transpiler (home : String) : String :=
  Path.joinAll (Static.directory home) ["ts", "transpile-ts2js-tsc.js"]

/-- The program that reports the patterns of a JavaScript file. -/
def scriptExtractor (home : String) : String :=
  Path.joinAll (Static.directory home) ["js", "extract-regexps.js"]

def failure (name : String) : FileReport :=
  .make (.str name) (.str "typescript") (.int 0) (.list [])

def reportOnScript (name : String) : Act FileReport := do
  let output ← Act.executeChecked ("'" ++ scriptExtractor (← get).home ++ "' '" ++ name ++ "'")
  match (FileReport.read (.str output)).run {} with
  | (.ok _, report) => return report
  | (.error f, _) => throw f

/-- The report on a TypeScript file by way of a JavaScript file. -/
def reportOn (name : String) : Act FileReport := do
  let h ← get
  let _ ← Act.executeChecked
    ("'" ++ transpiler h.home ++ "' '" ++ name ++ "' > '" ++ h.temporary ++ "'")
  return { ← reportOnScript h.temporary with fileName := some (.str name) }

/-- The report on a TypeScript file printed; whatever goes wrong, there is one. -/
def printReport (name : String) : Act Unit := do
  Act.needPrograms [transpiler (← get).home]
  let report ← tryCatch (reportOn name) fun _ => pure (failure name)
  Act.print ((← (report.toLine : Outcome String)) ++ "\n")

end RegexCorpus.Extract.TypeScript
