import RegexCorpus.Record.Regex
import RegexCorpus.SuperLinear.Opinion

/-!
# The analysis of a pattern for super-linear time

Detectors are asked for their opinions; the inputs that they suggest are then tried in a language,
with few pumps to show exponential growth and with many to show polynomial growth. From the matches
that ran out of time follows the performance to expect of the pattern in that language.
-/

namespace RegexCorpus.SuperLinear

/-- The result of trying an input on a pattern in a language. -/
structure Validation where
  pattern : Value
  evilInput : Held EvilInput
  language : Value
  validPattern : Value
  pumps : Value
  timeLimit : Value
  timedOut : Value

def Validation.ofReport (pattern : Value) (evilInput : Held EvilInput) (raw : Value) :
    Outcome Validation := do
  return {
    pattern
    evilInput
    language := ← raw.get "language"
    validPattern := ← raw.get "validPattern"
    pumps := ← raw.get "nPumps"
    timeLimit := .bool ((← raw.get "timeLimit").same (.int 1))
    timedOut := .bool ((← raw.get "timedOut").same (.int 1)) }

def matchTimeout : Int := 5

/-- The number of pumps that shows exponential growth. -/
def fewPumps : Int := 100

/-- The number of pumps that shows polynomial growth. -/
def manyPumps : Int := 500000

/-- The languages in which inputs can be tried. -/
def supportedLanguages : List String :=
  ["javascript", "php", "ruby", "rust", "perl", "python", "go", "java"]

/-- What detectors and trials say about the time that a pattern takes. -/
structure Analysis where
  regex : Held Regex := .plain .null
  timeout : Value := .int matchTimeout
  powerPumps : Value := .int manyPumps
  opinions : Records Opinion := .items []
  /-- By language, whether it takes the pattern. -/
  validIn : Value := .dict []
  /-- By language, a table of pump counts and whether a match timed out. -/
  timedOutBy : Value := .dict []

/-- How a pattern is predicted to behave in a language. -/
inductive Performance where
  | invalidPattern
  | exponential
  | power
  | linear
  deriving DecidableEq, Repr

namespace Performance

def name : Performance → String
  | invalidPattern => "INVALID PATTERN"
  | exponential => "EXP"
  | power => "POW"
  | linear => "LIN"

/-- The better the performance, the larger the score; an invalid pattern has none. -/
def score? : Performance → Option Int
  | invalidPattern => none
  | exponential => some 1
  | power => some 2
  | linear => some 3

/-- The pattern takes more than linear time. -/
def isSlow (p : Performance) : Bool := p == exponential || p == power

end Performance

namespace Analysis

def pattern (a : Analysis) : Outcome Value := do field (← a.regex.get).pattern

/-! ### Records -/

def toValue (a : Analysis) : Outcome Value := do
  let regex ← Json.parse (← (← a.regex.get).toLine)
  let opinions ← (← a.opinions.parts).mapM fun o => do reread (← (← o.get).toValue)
  return .object [
    ("regex", regex), ("slTimeout", a.timeout), ("powerPumps", a.powerPumps),
    ("detectorOpinions", .list opinions), ("lang_validPattern", a.validIn),
    ("lang_pump2timedOut", a.timedOutBy)]

def toLine (a : Analysis) : Outcome String := do return Json.render (← a.toValue)

/-- Pump counts that were written as texts are read back one after the other, each going to the end
of its table. The table is found to have changed when all are read, or as soon as one is there
already, whose value it takes. -/
def restoreKeys (remaining : List Atom) (es : Entries) : Outcome Unit × Entries :=
  match remaining with
  | [] => (.error .changedWhileRead, es)
  | .str s :: rest =>
    match Text.readInt? s with
    | none => (.error (.badValue ""), es)
    | some n =>
      let v := (Entries.find? es (.str s)).getD .null
      let changed := Entries.erase (.str s) (Entries.set (.int n) v es)
      if Entries.has es (.int n) then (.error .changedWhileRead, changed)
      else restoreKeys rest changed
  | _ :: rest => restoreKeys rest es

/-- The table of a language after its keys were restored. An empty table has none to restore. -/
def restoreTable (table : Value) : Outcome Unit × Value :=
  match table with
  | .dict [] => (.ok (), table)
  | .dict es =>
    let (r, es') := restoreKeys (es.map (·.1)) es
    (r, .dict es')
  | .list xs => (if xs.any (fun x => x matches .str _) then .error .wrongKind else .ok (), table)
  | .str s => (if s.isEmpty then .ok () else .error .wrongKind, table)
  | _ => (.error .wrongKind, table)

def restoreTables : List Value → Edit Analysis Unit
  | [] => pure ()
  | language :: rest => do
    let table ← ((← get).timedOutBy.item language : Outcome Value)
    let (r, table) := restoreTable table
    let tables ← ((← get).timedOutBy.put language table : Outcome Value)
    modify ({ · with timedOutBy := tables })
    (r : Outcome Unit)
    restoreTables rest

def read (line : Value) : Edit Analysis Unit := do
  let obj ← (Json.ofLine line : Outcome Value)
  let r ← ((do (Regex.readObject (← obj.get "regex")).made {}) : Outcome _)
  modify ({ · with regex := .record r })
  setOptional obj "slTimeout" (.int matchTimeout) fun v a => { a with timeout := v }
  setOptional obj "powerPumps" (.int manyPumps) fun v a => { a with powerPumps := v }
  let opinions ← ((do (← (← obj.get "detectorOpinions").parts).mapM Opinion.ofObject) : Outcome _)
  modify ({ · with opinions := .items (opinions.map .record) })
  setFields obj [
    ("lang_validPattern", fun v a => { a with validIn := v }),
    ("lang_pump2timedOut", fun v a => { a with timedOutBy := v })]
  restoreTables (← ((← get).timedOutBy.parts : Outcome _))

/-! ### Asking the detectors -/

/-- The question to the detectors: the pattern, sixty seconds and two gigabytes for each of them, and
which detectors and variants of the pattern are wanted, if not all. -/
def detectorQuery (a : Analysis) (detectors variants : Value) : Outcome String := do
  let base := [
    ("pattern", ← a.pattern), ("timeLimit", .int 60), ("memoryLimit", .int (2048 * 1024))]
  let base := if detectors.holds then base ++ [("detectors", detectors)] else base
  let base := if variants.holds then base ++ [("patternVariants", variants)] else base
  return Json.render (.object base)

def opinionsOf (output : String) : Outcome (List Opinion) := do
  let obj ← Json.parse output
  (← (← obj.get "detectorOpinions").parts).mapM fun raw => do
    Opinion.ofReport (← obj.get "pattern") raw

/-- The detectors are asked for their opinions. When their answer cannot be read, no opinions are
left. -/
def queryDetectors (detectors variants : Value) : Ask Analysis Unit := do
  let query ← ((← get).detectorQuery detectors variants : Outcome String)
  let reply ← Ask.ofConsult (consult query)
  (require (reply.code == 0) : Outcome Unit)
  match opinionsOf (Text.trim reply.output) with
  | .ok os => modify ({ · with opinions := .items (os.map .record) })
  | .error _ =>
    modify ({ · with opinions := .plain .null })
    throw .requirement

def worse (c : Complexity) (named : Value) : Outcome Complexity := do
  let key ← named.toKey
  match Complexity.ofAtom? key with
  | some d => return if c.rank < d.rank then d else c
  | none => .error (.missingKey key)

def worstPrediction (a : Analysis) : Outcome Complexity := do
  let named ← (← a.opinions.parts).mapM fun o => do return (← o.get).predicted
  named.foldlM worse .unknown

/-! ### Trying the inputs -/

/-- The question to the tool that tries an input in a language. -/
def validationQuery (a : Analysis) (input : EvilInput) (language : String) (pumps : Value) :
    Outcome String := do
  return Json.render (.object [
    ("language", .str language), ("pattern", ← a.pattern),
    ("evilInput", ← reread (← input.toValue)), ("nPumps", pumps), ("timeLimit", a.timeout)])

def tryPumps (input : EvilInput) (language : String) (pumps : Value) : Ask Analysis Validation := do
  let a ← get
  let query ← (a.validationQuery input language pumps : Outcome String)
  let reply ← Ask.ofConsult (consult query)
  let raw ← (Json.parse (Text.trim reply.output) : Outcome Value)
  ((do Validation.ofReport (← a.pattern) (.record input) raw) : Outcome Validation)

/-- A timeout once seen stays, and a first result is kept whatever it is. -/
def noteTimeout (table pumps timedOut : Value) : Outcome Value := do
  if ← table.has pumps then
    match ← table.item pumps with
    | .bool false => table.put pumps timedOut
    | _ => return table
  else table.put pumps timedOut

def noteValidation (language : String) (v : Validation) : Edit Analysis Unit := do
  let a ← get
  if v.validPattern.holds then
    let validIn ← (a.validIn.put (.str language) (.bool true) : Outcome Value)
    modify ({ · with validIn })
    let table ← (a.timedOutBy.get language : Outcome Value)
    let table ← (noteTimeout table v.pumps v.timedOut : Outcome Value)
    let timedOutBy ← (a.timedOutBy.put (.str language) table : Outcome Value)
    modify ({ · with timedOutBy })
  else
    let validIn ← (a.validIn.put (.str language) (.bool false) : Outcome Value)
    modify ({ · with validIn })

/-- An input tried with few and with many pumps, and the two results noted. -/
def tryInput (language : String) (input : EvilInput) : Ask Analysis Unit := do
  let first ← tryPumps input language (.int fewPumps)
  let second ← tryPumps input language (← get).powerPumps
  Ask.ofEdit (noteValidation language first)
  Ask.ofEdit (noteValidation language second)

/-- The inputs of an opinion tried one after the other, if the opinion calls the pattern
vulnerable. -/
def tryOpinion (language : String) (slot : Held Opinion) : Ask Analysis Unit := do
  let o ← (slot.get : Outcome Opinion)
  if o.isVuln.holds then
    let inputs ← ((do (← field o.evilInputs).parts) : Outcome _)
    for slot in inputs do
      let input ← (slot.get : Outcome EvilInput)
      if input.couldParse.holds then tryInput language input

/-- The inputs of all opinions tried in a language. -/
def validateIn (language : Value) : Ask Analysis Unit := do
  let language := Text.lower (← (language.text : Outcome String))
  if !supportedLanguages.contains language then
    throw (.badValue ("Unsupported language " ++ language))
  let _ ← ((← get).pattern : Outcome Value)
  let tables ← ((← get).timedOutBy.put (.str language) (.dict []) : Outcome Value)
  modify ({ · with timedOutBy := tables })
  for slot in ← ((← get).opinions.parts : Outcome _) do
    tryOpinion language slot

/-! ### Predictions -/

/-- The opinion gives no reason to expect more than linear time. -/
def harmless (slot : Held Opinion) : Outcome Bool := do
  let o ← slot.get
  if !o.canAnalyze.holds || !o.isVuln.holds then return true
  match ← field o.evilInputs with
  | .items xs => return !(← (← Value.itemAt xs 0).get).couldParse.holds
  | .plain v =>
    let _ ← v.item (.int 0)
    .error .missingField

/-- The verdict on a language that was tried: whether it takes the pattern, and its table. -/
def verdict? (a : Analysis) (language : String) : Outcome (Option Value) := do
  if (← a.validIn.get language).holds then return some (← a.timedOutBy.get language) else return none

def hasTimeout (table pumps : Value) : Outcome Bool := do
  if ← table.has pumps then return (← table.item pumps).holds else return false

/-- The performance to expect of the pattern in a language. A language that was never tried gets a
linear one, provided that no opinion gives reason to expect otherwise. -/
def performance (a : Analysis) (language : Value) : Outcome Performance := do
  let language := Text.lower (← language.text)
  match a.verdict? language with
  | .error _ =>
    for slot in ← a.opinions.parts do
      require (← harmless slot)
    return .linear
  | .ok none => return .invalidPattern
  | .ok (some table) =>
    if ← hasTimeout table (.int fewPumps) then return .exponential
    else if ← hasTimeout table a.powerPumps then return .power
    else return .linear

/-- The pattern takes more than linear time in a language. -/
def isSlowIn (a : Analysis) (language : Value) : Outcome Bool := do
  return (← a.performance language).isSlow

/-- The pattern takes more than linear time in one of the languages. -/
def isSlowInSome (a : Analysis) : List Value → Outcome Bool
  | [] => .ok false
  | language :: rest => do
    if ← a.isSlowIn language then return true else a.isSlowInSome rest

/-- The pattern takes more than linear time in some language that was tried. -/
def isEverSlow (a : Analysis) : Outcome Bool := do a.isSlowInSome (← a.timedOutBy.parts)

/-- How much better the pattern performs in the second language than in the first, unless one of
them does not take it. -/
def migrationScore (a : Analysis) (source target : Value) : Outcome (Option Int) := do
  match (← a.performance source).score? with
  | none => return none
  | some s => match (← a.performance target).score? with
    | none => return none
    | some t => return some (t - s)

end Analysis
end RegexCorpus.SuperLinear
