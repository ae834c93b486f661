import RegexCorpus.Automaton.Path
import RegexCorpus.Value.Display

/-!
# Measures of an automaton

An automaton has two measures: the number of simple paths from its sources to its targets, and the
density of its graph. Paths are counted pair by pair, up to a limit of paths and of time. The search
that lists the paths of a pair is a parameter of the count; `Graph.search` is one. A graph whose
paths cannot be counted keeps its density, and one that cannot be read has neither measure.
-/

namespace RegexCorpus.Automaton

/-- How paths are counted: how many at most, for how long, and what lists them. -/
structure Limits where
  paths : Int := 5000
  /-- The seconds after which counting stops. -/
  seconds : Int := 5
  /-- The time that passes from one look at the clock to the next. -/
  tick : Int := 0
  /-- How many units of that time make a second. -/
  unitsPerSecond : Nat := 1
  logPaths : Bool := false
  /-- The first so many paths between two nodes, in any order. -/
  search : Graph → Int → Int → Nat → Outcome (List (List Int)) := Graph.search

/-- The state of a count. -/
structure Tally where
  seen : Int := 0
  counted : Int := 0
  /-- The looks at the clock since the count began. -/
  looks : Int := 0
  stopped : Bool := false
  log : List String := []
  deriving Repr

/-- Counting may fail; what was logged stays. -/
abbrev Counting := ExceptT Fault (StateM Tally)

namespace Tally

def say (message : String) (t : Tally) : Tally := { t with log := t.log ++ [message] }

def stop (message : String) (t : Tally) : Tally := { t.say message with stopped := true }

end Tally

def showNodes (ns : List Int) : String := (Value.list (ns.map .int)).quoted

def labels (g : Graph) : List Int → List String
  | u :: v :: rest => g.label u v :: labels g (v :: rest)
  | _ => []

/-- The paths of one pair counted one by one, until a limit is reached. -/
def countEach (limits : Limits) (g : Graph) : List (List Int) → Tally → Tally
  | [], t => t
  | path :: rest, t =>
    let t := { t with seen := t.seen + 1 }
    if limits.paths < t.seen then t.stop "simple path limit reached"
    else
      let t := { t with looks := t.looks + 1 }
      if limits.seconds * limits.unitsPerSecond < limits.tick * t.looks then t.stop "simple path timeout reached"
      else
        let t := { t with counted := t.counted + 1 }
        let t := if limits.logPaths then
            (t.say ("  simple path: " ++ showNodes path)).say
              ("  simple input: <" ++ Text.join " -> " (labels g path) ++ ">")
          else t
        countEach limits g rest t

/-- The paths from a source to a target counted, if the search lists them. -/
def countPair (limits : Limits) (g : Graph) (source target : Int) : Counting Unit := do
  let t ← get
  -- One path more than the limit allows is enough to see it reached.
  let paths ← limits.search g source target (max 1 (limits.paths + 1 - t.seen).toNat)
  set (countEach limits g paths t)

/-- The paths from the sources to all targets counted; no source is begun once a limit is reached. -/
def countSources (limits : Limits) (g : Graph) (targets : List Int) : List Int → Counting Unit
  | [] => pure ()
  | source :: rest => do
    if (← get).stopped then modify (·.say "bailing out")
    else
      targets.forM (countPair limits g source)
      countSources limits g targets rest

def countPaths (limits : Limits) (a : Automaton) : Counting Int := do
  modify (·.say ("Computing simple paths for automaton with " ++ Text.ofNat a.sources.length ++
    " sources, " ++ Text.ofNat a.targets.length ++ " targets, " ++
    Text.ofNat a.graph.nodes.length ++ " nodes, " ++ Text.ofNat a.graph.edges.length ++ " edges"))
  countSources limits a.graph a.targets a.sources
  return (← get).counted

/-- The number of paths and the density of a graph. -/
structure Measures where
  paths : Int
  density : Value
  deriving Repr

namespace Measures

def unknown : Measures := { paths := -1, density := .int (-1) }

def densityOf (g : Graph) : Value :=
  match g.density with
  | some x => .double x
  | none => .int 0

/-- The measures of an automaton; paths that cannot be counted leave the density as it is. -/
def ofAutomaton (limits : Limits) (a : Automaton) : Measures :=
  { density := densityOf a.graph
    paths := match (a.countPaths limits).run {} with
      | (.ok n, _) => n
      | (.error _, _) => -1 }

def ofText (limits : Limits) (text : Value) : Measures :=
  match text with
  | .str s => match Automaton.ofText s with
    | .ok (some a) => ofAutomaton limits a
    | _ => unknown
  | _ => unknown

/-- The measures of the automaton in a report. Only an automaton that was found in time counts. -/
def ofReport (limits : Limits) (report : Value) : Outcome Measures := do
  if !(← report.has (.str "efreeNFAGraph")) then return unknown
  match ← report.get "efreeNFAGraph" with
  | .null => return unknown
  | text => if text.same (.str "TIMEOUT") then return unknown else return ofText limits text

end Measures
end RegexCorpus.Automaton
