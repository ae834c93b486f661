import RegexCorpus.SuperLinear.Input

/-!
# Opinions of detectors

A detector looks at a pattern and says whether some input may take a backtracking matcher more than
linear time. An opinion says whether the detector came to a result at all, whether it thinks the
pattern vulnerable, how bad it takes the growth to be, and which inputs would show it.
-/

namespace RegexCorpus.SuperLinear

/-- How the time may grow, from the best to the worst that is known. -/
inductive Complexity where
  | unknown
  | linear
  | polynomial
  | exponential
  deriving DecidableEq, Repr

namespace Complexity

def name : Complexity → String
  | unknown => "unknown"
  | linear => "linear"
  | polynomial => "polynomial"
  | exponential => "exponential"

def rank : Complexity → Nat
  | unknown => 0
  | linear => 1
  | polynomial => 2
  | exponential => 3

def ofName? (s : String) : Option Complexity :=
  [unknown, linear, polynomial, exponential].find? (·.name == s)

def ofAtom? : Atom → Option Complexity
  | .str s => ofName? s
  | _ => none

end Complexity

/-- The opinion of a detector on a pattern. -/
structure Opinion where
  pattern : Value := .str "UNINITIALIZED"
  detectorName : Value := .str "UNINITIALIZED"
  timedOut : Value := .bool false
  canAnalyze : Value := .bool false
  isVuln : Value := .bool false
  predicted : Value := .str Complexity.unknown.name
  patternVariant : Option Value := none
  evilInputs : Option (Records EvilInput) := none

namespace Opinion

/-- An input as a detector reports it: a text stands for an input that could not be parsed. -/
def inputOfReport (raw : Value) : Outcome EvilInput :=
  match raw with
  | .str _ => .ok (.make (.bool false) (.plain .null) .null)
  | _ => do
    let pairs ← (← (← raw.get "pumpPairs").parts).mapM fun p => do
      return Held.record ({ lead := ← p.get "prefix", pump := ← p.get "pump" } : PumpPair)
    return .make (.bool true) (.items pairs) (← raw.get "suffix")

def noteInputs : List Value → Edit Opinion Unit
  | [] => pure ()
  | raw :: rest => do
    let input ← (inputOfReport raw : Outcome EvilInput)
    modify fun o => { o with evilInputs := match o.evilInputs with
      | some (.items xs) => some (.items (xs ++ [.record input]))
      | _ => some (.items [.record input]) }
    noteInputs rest

/-- The prediction of a vulnerable pattern: a known name is kept, an unknown one is not. -/
def notePrediction (report : Value) : Edit Opinion Unit := do
  if ← (report.has (.str "predictedComplexity") : Outcome Bool) then
    let name ← (report.get "predictedComplexity" : Outcome Value)
    let key ← (name.toKey : Outcome Atom)
    if (Complexity.ofAtom? key).isSome then modify ({ · with predicted := name })
  else modify ({ · with predicted := .str Complexity.unknown.name })

/-- What a detector that came to an end reports. -/
def noteReport (raw report : Value) : Edit Opinion Unit := do
  setFields raw [("patternVariant", fun v o => { o with patternVariant := some v })]
  let canAnalyze := (← (report.get "canAnalyze" : Outcome Value)).same (.int 1)
  modify ({ · with canAnalyze := .bool canAnalyze })
  if canAnalyze then
    let isVuln := (← (report.get "isSafe" : Outcome Value)).same (.int 0)
    modify ({ · with isVuln := .bool isVuln })
    if isVuln then
      notePrediction report
      modify ({ · with evilInputs := some (.items []) })
      noteInputs (← ((do (← report.get "evilInput").parts) : Outcome _))
    else modify ({ · with predicted := .str Complexity.linear.name })
  else
    modify ({ · with isVuln := .bool false, predicted := .str Complexity.unknown.name })

/-- An opinion filled from a detector's report on a pattern. -/
def readReport (pattern raw : Value) : Edit Opinion Unit := do
  modify ({ · with pattern })
  setFields raw [("name", fun v o => { o with detectorName := v })]
  let report ← (raw.get "opinion" : Outcome Value)
  if report.same (.str "TIMEOUT") then
    modify ({ · with timedOut := .bool true, canAnalyze := .bool false, isVuln := .bool false })
  else if report.same (.str "INTERNAL-ERROR") then
    modify ({ · with timedOut := .bool false, canAnalyze := .bool false, isVuln := .bool false })
  else noteReport raw report

/-- An opinion made from a detector's report. -/
def ofReport (pattern raw : Value) : Outcome Opinion := (readReport pattern raw).made {}

def readObject (obj : Value) : Edit Opinion Unit := do
  setFields obj [
    ("detectorName", fun v o => { o with detectorName := v }),
    ("pattern", fun v o => { o with pattern := v }),
    ("canAnalyze", fun v o => { o with canAnalyze := v }),
    ("timedOut", fun v o => { o with timedOut := v }),
    ("isVuln", fun v o => { o with isVuln := v })]
  if !(← get).timedOut.holds then
    setFields obj [("patternVariant", fun v o => { o with patternVariant := some v })]
    if (← get).isVuln.holds then
      let inputs ← ((do (← (← obj.get "evilInputs").parts).mapM EvilInput.ofObject) : Outcome _)
      modify ({ · with evilInputs := some (.items (inputs.map .record)) })

def read (line : Value) : Edit Opinion Unit := do
  readObject (← (Json.ofLine line : Outcome Value))

def ofObject (obj : Value) : Outcome Opinion := (readObject obj).made {}

def toValue (o : Opinion) : Outcome Value := do
  let base := [
    ("detectorName", o.detectorName), ("pattern", o.pattern), ("canAnalyze", o.canAnalyze),
    ("timedOut", o.timedOut), ("isVuln", o.isVuln)]
  if o.timedOut.holds then return .object base
  let base := base ++ [("patternVariant", ← field o.patternVariant)]
  if !o.isVuln.holds then return .object base
  let inputs ← (← (← field o.evilInputs).parts).mapM fun i => do reread (← (← i.get).toValue)
  return .object (base ++ [("evilInputs", .list inputs)])

def toLine (o : Opinion) : Outcome String := do return Json.render (← o.toValue)

end Opinion
end RegexCorpus.SuperLinear
