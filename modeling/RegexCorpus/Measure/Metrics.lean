import RegexCorpus.Pattern.CSharp
import RegexCorpus.SuperLinear.Analysis

/-!
# Metrics of patterns

What is measured on a pattern: the languages that use it, its form in the notation of C#, the
features that it uses, its automaton, and how slow it may get.
-/

namespace RegexCorpus.Measure

/-- What is measured of a pattern. -/
structure Metrics where
  pattern : Value
  staticLanguages : List String
  dynamicLanguages : List String
  /-- The pattern in the notation of C#, on which the rest is measured. -/
  csharp : String
  valid : Value
  /-- How often each feature is used. -/
  features : Entries
  automaton : Value
  paths : Int
  distinctFeatures : Nat
  worstCase : SuperLinear.Complexity
  density : Value
  usesSuperLinear : Bool

/-- The members of the object on the line of a pattern's metrics. -/
def Metrics.members (m : Metrics) : Members := [
  ("origPattern", m.pattern), ("origLangsStatic", .strs m.staticLanguages),
  ("origLangsDynamic", .strs m.dynamicLanguages), ("csharpPattern", .str m.csharp),
  ("csharpRegexLen", .int m.csharp.length), ("validInCSharp", m.valid),
  ("featureVector", .dict m.features), ("automatonMetrics", m.automaton),
  ("nSimplePaths", .int m.paths), ("nDistinctFeaturesUsed", .int m.distinctFeatures),
  ("predictedWorstCaseSpencer", .str m.worstCase.name), ("averageOutDegreeDensity", m.density),
  ("usesSuperLinearFeatures", .bool m.usesSuperLinear)]

def Metrics.toLine (m : Metrics) : Outcome String := Json.toLine (.object m.members)

/-! ### Features -/

/-- A feature is used when its count is known and positive. -/
def isUsed (count : Value) : Outcome Bool :=
  match count with
  | .null => .ok false
  | count => count.isPositive

def distinctFeatures (features : Entries) : Outcome Nat := do
  return ((← features.mapM fun e => isUsed e.2).filter id).length

/-- The features that take more than linear time: lookaround and back references. -/
def superLinearFeatures : List String := ["NLKA", "LKA", "NLKB", "LKB", "BKR"]

/-- A feature has a count, which has to be a number, and it is positive. -/
def hasFeature (features : Entries) (name : String) : Outcome Bool :=
  match Entries.find? features (.str name) with
  | some count => count.isPositive
  | none => .ok false

/-- A feature that takes more than linear time is used. -/
def usesSuperLinear (features : Entries) : Outcome Bool := do
  return (← superLinearFeatures.mapM (hasFeature features)).any id

/-! ### Reports of the automaton analyser -/

/-- The report on a pattern when the analyser's line cannot be read. -/
def unreadable (pattern : String) : Value :=
  .object [("len", .int pattern.length), ("validCSharpRegex", .bool false)]

def without (key : String) : Value → Value
  | .dict es => .dict (Entries.erase (.str key) es)
  | v => v

/-- The report on a valid pattern: the mark of complete features is taken off, and the automaton has
to say whether it is complete. -/
def checkValid (report : Value) : Outcome Value := do
  let features ← report.get "featureVector"
  let marked := (← features.get "valid").holds
  let report ← if marked then report.put (.str "featureVector") (without "valid" features)
    else pure report
  let _ ← (← report.get "automataMeasures").get "nfa_orig_completeInfo"
  return report

def reportOf (pattern line : String) : Outcome Value :=
  match Json.parse (Text.trim line) with
  | .error _ => .ok (unreadable pattern)
  | .ok answer => do
    require (← answer.has (.str "regexMetrics"))
    let report ← answer.get "regexMetrics"
    if (← report.get "validCSharpRegex").holds then checkValid report else return report

/-- The reports on the lines of the analyser, one for each pattern in turn; there may be fewer lines,
and not more. -/
def reportsOf : List String → List String → Outcome (List Value)
  | _, [] => .ok []
  | [], _ :: _ => .error .outOfRange
  | pattern :: patterns, line :: lines => do
    let report ← reportOf pattern line
    return report :: (← reportsOf patterns lines)

end RegexCorpus.Measure
