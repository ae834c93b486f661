import RegexCorpus.Automaton.Measure
import RegexCorpus.Host.Files
import RegexCorpus.Measure.Metrics

/-!
# Measuring a batch

The automaton analyser is slow to start, so patterns are measured in batches. A batch is measured as
a whole: either there are metrics for each of its patterns, or the patterns come back.
-/

namespace RegexCorpus.Measure

/-- The analyses that are asked for. -/
structure Analyses where
  automaton : Bool := false
  simplePaths : Bool := false
  worstCase : Bool := false
  deriving DecidableEq, Repr

def Analyses.ofNames (names : List String) : Analyses :=
  { automaton := names.contains "automaton"
    simplePaths := names.contains "simple paths"
    worstCase := names.contains "worst case" }

/-- A batch after it was measured: metrics of all its patterns, or the patterns as they were. -/
inductive Measured where
  | metrics (ms : List Metrics)
  | unmeasured (rs : List Regex)

def analyser (home : String) : String := Path.joinAll home ["bin", "AutomataCLI.exe"]

/-- The automaton analyser run; a run that cannot be completed counts as failed. -/
def runAnalyser : Act Reply := do
  let h ← get
  let wine := (← Act.which "wine").getD ""
  Act.orElse (Act.execute (.program [wine, analyser h.home, h.temporary])) (!·.isStop)
    fun _ => pure { code := 1 }

/-- The reports of the automaton analyser; empty ones when it fails. -/
def analyse (patterns : List String) : Act (List Value) := do
  let reply ← runAnalyser
  if reply.code == 0 then (reportsOf patterns (Text.lines reply.output) : Outcome _)
  else return patterns.map fun _ => .dict []

def predictWorstCase (pattern : String) : Act SuperLinear.Complexity := do
  let fresh : SuperLinear.Analysis := { regex := .record (Regex.bare (.str pattern)) }
  let (_, asked) ← Act.ofAsk fresh (SuperLinear.Analysis.queryDetectors
    (.strs ["weideman-RegexStaticAnalysis"]) (.strs ["leftanchor"]))
  (asked.worstPrediction : Outcome _)

/-- The pattern in the notation of C#. The flag for Unicode gives way to the one for letter case, so
that a pattern with flags keeps some. -/
def toCSharp (r : Regex) : Outcome String := do
  return Pattern.toCSharp "i" (← (← field r.pattern).text)

/-- The features and the automaton in a report: none on an invalid pattern. -/
def partsOf (report : Value) : Outcome (Value × Entries × Value) := do
  let valid ← report.get "validCSharpRegex"
  if valid.holds then
    return (valid, ← (← report.get "featureVector").entries, ← report.get "automataMeasures")
  else return (valid, [], .dict [])

/-- All that was found on a pattern, put together. -/
def metricsOf (analyses : Analyses) (r : Regex) (csharp : String) (report : Value)
    (measures : Automaton.Measures) (worstCase : SuperLinear.Complexity) : Outcome Metrics := do
  let (valid, features, automaton) ← if analyses.automaton then partsOf report
    else pure (.bool false, [], .dict [])
  let used ← distinctFeatures features
  let superLinear ← usesSuperLinear features
  return {
    pattern := ← field r.pattern
    staticLanguages := ← r.staticLanguages
    dynamicLanguages := ← r.dynamicLanguages
    csharp, valid, features, automaton
    paths := measures.paths
    distinctFeatures := used
    worstCase
    density := measures.density
    usesSuperLinear := superLinear }

/-- The metrics of pattern after pattern. -/
def metricsOfAll (analyses : Analyses) : List Regex → List String → List Value →
    List Automaton.Measures → List SuperLinear.Complexity → Outcome (List Metrics)
  | r :: rs, c :: cs, v :: vs, m :: ms, w :: ws => do
    let first ← metricsOf analyses r c v m w
    return first :: (← metricsOfAll analyses rs cs vs ms ws)
  | _, _, _, _, _ => .ok []

/-- A batch measured; a failure on one pattern is a failure of the batch. -/
def measureAll (limits : Automaton.Limits) (analyses : Analyses) (rs : List Regex) :
    Act (List Metrics) := do
  let csharp ← (rs.mapM toCSharp : Outcome _)
  let reports ← if analyses.automaton then analyse csharp else pure (rs.map fun _ => .dict [])
  let measures ← ((if analyses.automaton && analyses.simplePaths then
      reports.mapM (Automaton.Measures.ofReport limits)
    else .ok (rs.map fun _ => .unknown)) : Outcome _)
  let worst ← if analyses.worstCase then csharp.mapM predictWorstCase
    else pure (rs.map fun _ => .unknown)
  (require (rs.length == reports.length) : Outcome _)
  (metricsOfAll analyses rs csharp reports measures worst : Outcome _)

def measureBatch (limits : Automaton.Limits) (analyses : Analyses) (rs : List Regex) :
    Act Measured :=
  tryCatch (do return .metrics (← measureAll limits analyses rs)) fun _ => pure (.unmeasured rs)

end RegexCorpus.Measure
