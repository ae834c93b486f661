import RegexCorpus.Measure.Batch
import RegexCorpus.Schedule.Pool

/-!
# Measuring a corpus

The patterns of a file, one a line, are cut into batches, and the metrics of the batches that could be
measured are written to a file, one pattern a line. A pool measures the batches, and each is written
as soon as it is completed.
-/

namespace RegexCorpus.Measure

/-- The pattern on a line; none when the line cannot be read or has no text as its pattern. The
static counts may be set to the total ones. -/
def regexOf? (shareStatic : Bool) (line : String) (room : Nat := Json.nestingLimit) : Option Regex :=
  match (Regex.read (.str line) room).run {} with
  | (.ok _, r) =>
    match r.pattern with
    | some (.str p) =>
      if p.isEmpty then none
      else if shareStatic then
        match Regex.shareStatic.run r with
        | (.ok _, r) => some r
        | (.error _, _) => none
      else some r
    | _ => none
  | (.error _, _) => none

/-- The patterns of lines, blank ones aside. -/
def regexesOf (shareStatic : Bool) (lines : List String) (room : Nat := Json.nestingLimit) : List Regex :=
  ((lines.map Text.trim).filter (!·.isEmpty)).filterMap (regexOf? shareStatic · room)

def load (path : String) (shareStatic : Bool) (room : Nat := Json.nestingLimit) : Act (List Regex) := do
  return regexesOf shareStatic (← Act.readLines path) room

/-- The pattern is used in one of the languages, whatever the case of their letters. -/
def isUsedIn (r : Regex) (languages : List String) : Outcome Bool := do
  let wanted := languages.map Text.lower
  return (← r.languages).any wanted.contains

/-- The set of the pattern's languages meets the wanted ones. -/
def hasLanguageAmong (wanted : List String) (r : Regex) : Outcome Bool := do
  let own := ((← r.languages).map Text.lower).eraseDups
  return !(own.filter wanted.contains).isEmpty

/-- The patterns of which some language is named; all of them when no language is named. -/
def keepUsed (languages : List String) : List Regex → Outcome (List Regex)
  | [] => .ok []
  | r :: rs => do
    let keep ← if languages.isEmpty then pure true
      else hasLanguageAmong (languages.map Text.lower) r
    let rest ← keepUsed languages rs
    return if keep then r :: rest else rest

def batchSize : Nat := 10

def batches {α : Type} (size : Nat) (xs : List α) : List (List α) :=
  if _h : xs = [] ∨ size = 0 then [] else xs.take size :: batches size (xs.drop size)
termination_by xs.length
decreasing_by
  have : 0 < xs.length := List.length_pos_iff.2 (fun e => _h (.inl e))
  simp only [List.length_drop]
  omega

/-- The batches of the patterns of a file that are used in one of the languages. -/
def loadBatches (path : String) (shareStatic : Bool) (languages : List String) :
    Act (List (List Regex)) := do
  let rs ← load path shareStatic
  return batches batchSize (← (keepUsed languages rs : Outcome _))

/-- The metrics of a batch put at the end of a file; nothing when it could not be measured. The results
of a batch are counted first, and a fault has no number of results. -/
def emit (out : String) : Except Fault Measured → Act Unit
  | .error _ => throw .wrongKind
  | .ok (.unmeasured _) => pure ()
  | .ok (.metrics ms) => ms.forM fun m => do
    Act.appendFile out ((← (m.toLine : Outcome String)) ++ "\n")

/-- A pool for batches, which completes them in the given order. -/
def unlimited (order : List Nat) : Schedule.Plan (StateM Host) := .unlimited order

/-- Batches measured by a pool and written to a new file as they are completed. -/
def measureBatches (limits : Automaton.Limits) (analyses : Analyses) (out : String)
    (order : List Nat) (work : List (List Regex)) : Act Unit := do
  Act.writeFile out ""
  let _ ← (unlimited order).forEach (work.map (measureBatch limits analyses)) (emit out)

/-- The patterns of a file measured. At the end the share of measured patterns is found, which there
is not when there are no patterns. -/
def measureFile (limits : Automaton.Limits) (path : String) (shareStatic : Bool)
    (analyses : Analyses) (languages : List String) (out : String) (order : List Nat := []) :
    Act Unit := do
  let work ← loadBatches path shareStatic languages
  measureBatches limits analyses out order work
  if work.isEmpty then throw .divisionByZero

end RegexCorpus.Measure
