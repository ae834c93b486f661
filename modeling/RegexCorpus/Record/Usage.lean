import RegexCorpus.Path
import RegexCorpus.Record.Edit

/-!
# Uses of patterns in source files

* `FileReport` — what an extractor reports of one file: its patterns with their flags.
* `Usage` — one use of a pattern, with the file it stands in.
* `TracedUsage` — a use with its line and the history of that line.
* `PatternInputs` — a pattern with inputs to try it on, by producer.
-/

namespace RegexCorpus

/-- A source file and the patterns in it. -/
structure FileReport where
  initialized : Value := .bool false
  type : Value := .str "SimpleFileWithRegexes"
  fileName : Option Value := none
  language : Option Value := none
  couldParse : Option Value := none
  regexes : Option Value := none
  deriving Repr, Inhabited

/-- A use of a pattern in a file. -/
structure Usage where
  initialized : Value := .bool false
  type : Value := .str "RegexUsage"
  pattern : Option Value := none
  flags : Option Value := none
  inputs : Option Value := none
  regexes : Option Value := none
  relPath : Option Value := none
  basename : Option Value := none
  deriving Repr, Inhabited

/-- A use with its place and its history. -/
structure TracedUsage extends Usage where
  lineNumber : Option Value := none
  logHistory : Option Value := none
  deriving Repr, Inhabited

/-- A pattern with inputs, by producer. -/
structure PatternInputs where
  initialized : Value := .bool false
  type : Value := .str "RegexPatternAndInputs"
  pattern : Option Value := none
  stringsByProducer : Option Value := none
  deriving Repr, Inhabited

namespace FileReport

def make (fileName language couldParse regexes : Value) : FileReport :=
  { initialized := .bool true, fileName, language, couldParse, regexes }

def fields : DataFields FileReport := [
  ⟨"fileName", none, (·.fileName), fun v r => { r with fileName := v }⟩,
  ⟨"language", none, (·.language), fun v r => { r with language := v }⟩,
  ⟨"couldParse", none, (·.couldParse), fun v r => { r with couldParse := v }⟩,
  ⟨"regexes", none, (·.regexes), fun v r => { r with regexes := v }⟩]

def read (line : Value) (room : Nat := Json.nestingLimit) : Edit FileReport Unit := do
  modify ({ · with initialized := .bool true })
  let obj ← (Json.ofLine line room : Outcome Value)
  fields.readFrom obj

def toLine (r : FileReport) (room : Nat := Json.nestingLimit) : Outcome String := do
  require r.initialized.holds
  Json.toLine (← members (fields.entries r ++ [("type", some r.type)])) room

end FileReport

namespace Usage

def make (pattern flags inputs regexes relPath basename : Value) : Usage :=
  { initialized := .bool true, pattern, flags, inputs, regexes, relPath, basename }

def fields : DataFields Usage := [
  ⟨"pattern", none, (·.pattern), fun v r => { r with pattern := v }⟩,
  ⟨"flags", none, (·.flags), fun v r => { r with flags := v }⟩,
  ⟨"inputs", none, (·.inputs), fun v r => { r with inputs := v }⟩,
  ⟨"regexes", none, (·.regexes), fun v r => { r with regexes := v }⟩,
  ⟨"relPath", none, (·.relPath), fun v r => { r with relPath := v }⟩,
  ⟨"basename", none, (·.basename), fun v r => { r with basename := v }⟩]

def read (line : Value) (room : Nat := Json.nestingLimit) : Edit Usage Unit := do
  modify ({ · with initialized := .bool true })
  let obj ← (Json.ofLine line room : Outcome Value)
  fields.readFrom obj

def toLine (r : Usage) (room : Nat := Json.nestingLimit) : Outcome String := do
  require r.initialized.holds
  Json.toLine (← members (fields.entries r)) room

def addInput (input : Value) : Edit Usage Unit := do
  let inputs ← (field (← get).inputs : Outcome Value)
  let inputs ← (append inputs input : Outcome Value)
  modify ({ · with inputs := some inputs })

end Usage

/-- The last component of a path given as data. -/
def basenameOf : Value → Outcome Value
  | .str s => .ok (.str (Path.basename s))
  | _ => .error .wrongKind

/-- The uses that a report lists, without inputs and without a registry. -/
def FileReport.usages (r : FileReport) : Outcome (List Usage) := do
  let regexes ← field r.regexes
  (← regexes.parts).mapM fun regex => do
    let fileName ← field r.fileName
    let basename ← basenameOf fileName
    return .make (← regex.get "pattern") (← regex.get "flags") .null .null fileName basename

namespace TracedUsage

/-- A use from its parts; a history that is not given is empty. -/
def make (pattern flags inputs regexes relPath basename lineNumber logHistory : Value) :
    TracedUsage :=
  { Usage.make pattern flags inputs regexes relPath basename with
    lineNumber, logHistory := given logHistory (.str "") }

/-- The fields of the use, its line, and the history of the line. -/
def fields : DataFields TracedUsage :=
  Usage.fields.map (fun f => ⟨f.name, f.default, fun r => f.get r.toUsage,
    fun v r => { r with toUsage := f.set v r.toUsage }⟩) ++ [
  ⟨"lineNumber", none, (·.lineNumber), fun v r => { r with lineNumber := v }⟩,
  ⟨"logHistory", some (.str ""), (·.logHistory), fun v r => { r with logHistory := v }⟩]

def read (line : Value) (room : Nat := Json.nestingLimit) : Edit TracedUsage Unit := do
  modify ({ · with initialized := .bool true })
  let obj ← (Json.ofLine line room : Outcome Value)
  fields.readFrom obj

def toLine (r : TracedUsage) (room : Nat := Json.nestingLimit) : Outcome String := do
  require r.initialized.holds
  Json.toLine (← members (fields.entries r)) room

def addInput (input : Value) : Edit TracedUsage Unit := do
  let (done, use) := (Usage.addInput input).run (← get).toUsage
  modify ({ · with toUsage := use })
  (done : Outcome Unit)

def setHistory (history : Value) : Edit TracedUsage Unit :=
  modify ({ · with logHistory := some history })

end TracedUsage

namespace PatternInputs

def make (pattern stringsByProducer : Value) : PatternInputs :=
  { initialized := .bool true, pattern, stringsByProducer }

def fields : DataFields PatternInputs := [
  ⟨"pattern", none, (·.pattern), fun v r => { r with pattern := v }⟩,
  ⟨"stringsByProducer", none, (·.stringsByProducer), fun v r => { r with stringsByProducer := v }⟩]

def readObject (obj : Value) : Edit PatternInputs Unit := do
  modify ({ · with initialized := .bool true })
  fields.readFrom obj

def read (line : Value) (room : Nat := Json.nestingLimit) : Edit PatternInputs Unit := do
  modify ({ · with initialized := .bool true })
  readObject (← (Json.ofLine line room : Outcome Value))

def toLine (r : PatternInputs) (room : Nat := Json.nestingLimit) : Outcome String := do
  require r.initialized.holds
  Json.toLine (← members (fields.entries r ++ [("type", some r.type)])) room

/-- The number of inputs, repeated ones included. -/
def inputCount (r : PatternInputs) : Outcome Nat := do
  let strings ← field r.stringsByProducer
  let sizes ← (← strings.parts).mapM fun producer => do (← strings.item producer).size
  return sizes.foldl (· + ·) 0

def addDistinct (seen : List Atom) (a : Atom) : List Atom :=
  if seen.any (·.samePart a) then seen else seen ++ [a]

/-- The different inputs, in order of their first appearance. -/
def distinctInputs (r : PatternInputs) : Outcome (List Atom) := do
  let strings ← field r.stringsByProducer
  let items ← (← strings.parts).mapM fun producer => do
    (← (← strings.item producer).parts).mapM Value.toKey
  return items.flatten.foldl addDistinct []

end PatternInputs
end RegexCorpus
